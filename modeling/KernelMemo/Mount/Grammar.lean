import Mathlib.Data.List.Induction
import KernelMemo.Mount.Options

/-! # The grammar of the mount options

What `parse_tuse_opt` accepts, without its loop.

* An option is a key with a value behind it.  `entryOf` reads one piece of the string, given
  which texts count as numerals.
* `record` is the mount data of a list of pieces: of every key the last value, and the defaults.
* `parseTuseOpt_iff`: the parser accepts the strings whose pieces are all options, with the texts
  that `%u` reads to their end as numerals, and that have every key; it returns their record. -/

namespace KernelMemo.Mount

open KernelMemo.OptionString

/-! ### Options -/

inductive Key where
  | fd
  | userId
  | groupId
deriving DecidableEq

/-- The text in front of the value. -/
def Key.text : Key → List Char
  | .fd => ['f', 'd', '=']
  | .userId => ['u', 's', 'e', 'r', '_', 'i', 'd', '=']
  | .groupId => ['g', 'r', 'o', 'u', 'p', '_', 'i', 'd', '=']

/-- The piece starts with the key. -/
def Key.starts (k : Key) (p : List Char) : Bool := k.text.isPrefixOf p

/-- An option with its value. -/
inductive Entry where
  | fd (value : Int)
  | userId (u : UInt32)
  | groupId (g : UInt32)
deriving DecidableEq

namespace Entry

def fd? : Entry → Option Int
  | fd v => some v
  | _ => none

def userId? : Entry → Option UInt32
  | userId u => some u
  | _ => none

def groupId? : Entry → Option UInt32
  | groupId g => some g
  | _ => none

def key : Entry → Key
  | fd _ => .fd
  | userId _ => .userId
  | groupId _ => .groupId

end Entry

/-- The texts that `%u` reads to their end. -/
def wholeU (v : List Char) : Bool := v ≠ [] && (simpleStrtoul 0 v).2 = []

/-- The value of `fd`. -/
def fdOf (numeral : List Char → Bool) (v : List Char) : Option Int :=
  if numeral v then (matchInt true v).toOption else none

/-- The value of an id: a base-10 `unsigned int` that is mapped to a valid id. -/
def idOf (numeral : List Char → Bool) (make : UInt32 → UInt32) (valid : UInt32 → Bool)
    (v : List Char) : Option UInt32 :=
  if numeral v then ((kstrtouint 10 v).toOption.map make).filter valid else none

/-- One piece of the string as an option. -/
def entryOf (numeral : List Char → Bool) (ns : UserNs) (p : List Char) : Option Entry :=
  if Key.fd.starts p then (fdOf numeral (p.drop 3)).map .fd
  else if Key.userId.starts p then
    (idOf numeral ns.makeKuid uidValid (p.drop 8)).map .userId
  else if Key.groupId.starts p then
    (idOf numeral ns.makeKgid gidValid (p.drop 9)).map .groupId
  else none

/-- The last value of a key in a list of pieces. -/
def lastValue {α : Type} (ns : UserNs) (value : Entry → Option α) (ps : List (List Char)) :
    Option α :=
  (ps.filterMap fun p => (entryOf wholeU ns p).bind value).getLast?

/-- Every piece that is not empty is an option, and every key is there. -/
structure Grammar (numeral : List Char → Bool) (ns : UserNs) (ps : List (List Char)) :
    Prop where
  entries : ∀ p ∈ ps, p ≠ [] → ∃ e, entryOf numeral ns p = some e
  keys : ∀ k : Key, ∃ p ∈ ps, ∃ e, entryOf numeral ns p = some e ∧ e.key = k

/-- The mount data of a list of options. -/
def record (ns : UserNs) (ps : List (List Char)) : TuseMountData :=
  { fd := (lastValue ns Entry.fd? ps).getD 0
    rootmode := 0
    userId := (lastValue ns Entry.userId? ps).getD 0
    groupId := (lastValue ns Entry.groupId? ps).getD 0
    fdPresent := true, userIdPresent := true, groupIdPresent := true
    maxRead := 0xFFFFFFFF, blksize := tuseDefaultBlksize }

/-- The pieces of an option string, or of `NULL`. -/
def optPieces (opt : Option (List Char)) : List (List Char) := opt.elim [] (pieces ',')

/-- The same pieces up to empty ones and to their order, and of each key in the same order. -/
structure SameOptions (ps ps' : List (List Char)) : Prop where
  perm : (ps.filter (· ≠ [])).Perm (ps'.filter (· ≠ []))
  order : ∀ k : Key, ps.filter k.starts = ps'.filter k.starts

/-! ### Patterns -/

theorem matchOne_lit (argc : ℕ) (key : List Char) (q : List Directive) (s : List Char) :
    matchOne argc (key.map .lit ++ q) s =
      if key.isPrefixOf s then matchOne argc q (s.drop key.length) else none := by
  induction key generalizing s with
  | nil => simp
  | cons c key ih =>
      cases s with
      | nil => simp [matchOne]
      | cons x s =>
          rw [List.map_cons, List.cons_append, matchOne]
          by_cases hx : x = c
          · simp [hx, ih]
          · simp [hx, Ne.symm hx]

/-- `%u` at the end of a pattern matches the texts that it reads to their end. -/
theorem matchOne_u (v : List Char) :
    matchOne 0 [.u] v = if wholeU v then some [v] else none := by
  have hargs : ¬ maxOptArgs ≤ 0 := by decide
  simp only [Directive.u, matchOne, numEnd, Bool.false_eq_true, if_false, if_neg hargs]
  cases hrest : (simpleStrtoul 0 v).2 with
  | nil =>
      cases v with
      | nil => simp [wholeU]
      | cons x v => simp [wholeU, hrest]
  | cons y rest => simp [wholeU, hrest]

theorem matchOne_keyPattern (key s : List Char) :
    matchOne 0 (keyPattern key) s =
      if key.isPrefixOf s && wholeU (s.drop key.length) then some [s.drop key.length]
      else none := by
  rw [keyPattern, matchOne_lit, matchOne_u]
  by_cases hk : key.isPrefixOf s <;> simp [hk]

/-! ### One piece -/

/-- An option sets its field. -/
def Entry.apply (d : TuseMountData) : Entry → TuseMountData
  | .fd v => { d with fd := v, fdPresent := true }
  | .userId u => { d with userId := u, userIdPresent := true }
  | .groupId g => { d with groupId := g, groupIdPresent := true }

/-- The first character of a piece tells its key. -/
theorem Key.head_of_starts {k : Key} {p : List Char} (h : k.starts p) :
    p.head? = k.text.head? := by
  obtain ⟨t, rfl⟩ := List.isPrefixOf_iff_prefix.mp h
  cases k <;> rfl

theorem Key.starts_unique {k k' : Key} {p : List Char} (h : k.starts p) (h' : k'.starts p) :
    k = k' := by
  have hhead := (head_of_starts h).symm.trans (head_of_starts h')
  cases k <;> cases k' <;> first | rfl | exact absurd hhead (by decide)

theorem Key.not_starts {k k' : Key} {p : List Char} (h : k.starts p) (hne : k' ≠ k) :
    k'.starts p = false :=
  Bool.eq_false_iff.mpr fun h' => hne (starts_unique h' h)

theorem tokens_eq : tokens =
    [(.optFd, keyPattern Key.fd.text), (.optUserId, keyPattern Key.userId.text),
      (.optGroupId, keyPattern Key.groupId.text)] := rfl

theorem matchToken_cons {T : Type} (t : T) (k : Key) (table : List (T × List Directive)) (last : T)
    (p : List Char) :
    matchToken p ((t, keyPattern k.text) :: table) last =
      if k.starts p && wholeU (p.drop k.text.length) then (t, [p.drop k.text.length])
      else matchToken p table last := by
  rw [matchToken, matchOne_keyPattern]
  by_cases h : (k.text.isPrefixOf p && wholeU (p.drop k.text.length)) = true
  · simp only [Key.starts, h, if_true]
  · rw [if_neg h, Key.starts, if_neg h]

def Key.token : Key → Token
  | .fd => .optFd
  | .userId => .optUserId
  | .groupId => .optGroupId

/-- `match_token` finds the key of the piece. -/
theorem matchToken_starts {k : Key} {p : List Char} (h : k.starts p) :
    matchToken p tokens .optErr =
      if wholeU (p.drop k.text.length) then (k.token, [p.drop k.text.length])
      else (.optErr, []) := by
  have hother : ∀ k' : Key, k' ≠ k → k'.starts p = false := fun k' => Key.not_starts h
  rw [tokens_eq, matchToken_cons, matchToken_cons, matchToken_cons, matchToken]
  cases k with
  | fd => simp [h, hother .userId, hother .groupId, Key.token]
  | userId => simp [h, hother .fd, hother .groupId, Key.token]
  | groupId => simp [h, hother .fd, hother .userId, Key.token]

theorem matchToken_not_starts {p : List Char} (h : ∀ k : Key, k.starts p = false) :
    matchToken p tokens .optErr = (.optErr, []) := by
  rw [tokens_eq, matchToken_cons, matchToken_cons, matchToken_cons, matchToken]
  simp [h]

theorem entryOf_starts (numeral : List Char → Bool) (ns : UserNs) {k : Key} {p : List Char}
    (h : k.starts p) :
    entryOf numeral ns p = match k with
      | .fd => (fdOf numeral (p.drop 3)).map .fd
      | .userId => (idOf numeral ns.makeKuid uidValid (p.drop 8)).map .userId
      | .groupId => (idOf numeral ns.makeKgid gidValid (p.drop 9)).map .groupId := by
  have hother : ∀ k' : Key, k' ≠ k → k'.starts p = false := fun k' => Key.not_starts h
  cases k with
  | fd => simp [entryOf, h]
  | userId => simp [entryOf, h, hother .fd]
  | groupId => simp [entryOf, h, hother .fd, hother .userId]

theorem entryOf_not_starts (numeral : List Char → Bool) (ns : UserNs) {p : List Char}
    (h : ∀ k : Key, k.starts p = false) : entryOf numeral ns p = none := by
  simp [entryOf, h]

theorem parsePiece_eq (ns : UserNs) (d : TuseMountData) {p : List Char} (hp : p ≠ []) :
    parsePiece ns true d p = (entryOf wholeU ns p).map (Entry.apply d) := by
  rw [parsePiece, if_neg hp]
  by_cases hk : ∃ k : Key, k.starts p = true
  · obtain ⟨k, hk⟩ := hk
    rw [matchToken_starts hk, entryOf_starts wholeU ns hk]
    cases k with
    | fd =>
        by_cases hv : wholeU (p.drop 3) = true
        · cases hint : matchInt true (p.drop 3) with
          | error e => simp [Key.text, Key.token, fdOf, hv, hint, Except.toOption]
          | ok v => simp [Key.text, Key.token, fdOf, hv, hint, Except.toOption, Entry.apply]
        · simp [Key.text, fdOf, hv]
    | userId =>
        by_cases hv : wholeU (p.drop 8) = true
        · cases hint : kstrtouint 10 (p.drop 8) with
          | error e => simp [Key.text, Key.token, idOf, hv, hint, Except.toOption, tuseMatchUint]
          | ok u =>
              cases hu : uidValid (ns.makeKuid u) <;>
                simp [Key.text, Key.token, idOf, hv, hint, Except.toOption, tuseMatchUint, hu,
                  Option.filter, Entry.apply]
        · simp [Key.text, idOf, hv]
    | groupId =>
        by_cases hv : wholeU (p.drop 9) = true
        · cases hint : kstrtouint 10 (p.drop 9) with
          | error e => simp [Key.text, Key.token, idOf, hv, hint, Except.toOption, tuseMatchUint]
          | ok u =>
              cases hu : gidValid (ns.makeKgid u) <;>
                simp [Key.text, Key.token, idOf, hv, hint, Except.toOption, tuseMatchUint, hu,
                  Option.filter, Entry.apply]
        · simp [Key.text, idOf, hv]
  · have hk' : ∀ k : Key, k.starts p = false := by simpa using hk
    rw [matchToken_not_starts hk', entryOf_not_starts wholeU ns hk']
    rfl

/-! ### All pieces -/

theorem entryOf_nil (numeral : List Char → Bool) (ns : UserNs) : entryOf numeral ns [] = none :=
  entryOf_not_starts numeral ns fun k => by cases k <;> rfl

theorem parsePieces_some (ns : UserNs) (d : TuseMountData) {ps : List (List Char)}
    (h : ∀ p ∈ ps, p ≠ [] → ∃ e, entryOf wholeU ns p = some e) :
    parsePieces ns (fun _ => true) d ps =
      some ((ps.filterMap (entryOf wholeU ns)).foldl Entry.apply d) := by
  induction ps generalizing d with
  | nil => rfl
  | cons p ps ih =>
      have hrest := fun d => ih d fun q hq => h q (List.mem_cons_of_mem p hq)
      by_cases hp : p = []
      · subst hp
        rw [parsePieces, parsePiece, if_pos rfl, List.filterMap_cons_none (entryOf_nil wholeU ns)]
        exact hrest d
      · obtain ⟨e, he⟩ := h p List.mem_cons_self hp
        rw [parsePieces, parsePiece_eq ns d hp, he, List.filterMap_cons_some he, List.foldl_cons]
        exact hrest (e.apply d)

theorem parsePieces_none (ns : UserNs) (d : TuseMountData) {ps : List (List Char)}
    (h : ∃ p ∈ ps, p ≠ [] ∧ entryOf wholeU ns p = none) :
    parsePieces ns (fun _ => true) d ps = none := by
  induction ps generalizing d with
  | nil => simp at h
  | cons p ps ih =>
      rw [parsePieces]
      cases hp : parsePiece ns true d p with
      | none => rfl
      | some d' =>
          obtain ⟨q, hq, hne, hnone⟩ := h
          rcases List.mem_cons.mp hq with rfl | hq
          · rw [parsePiece_eq ns d hne, hnone] at hp
            cases hp
          · exact ih d' ⟨q, hq, hne, hnone⟩

/-- The last value of every key is what counts. -/
theorem foldl_apply (es : List Entry) :
    es.foldl Entry.apply mountDataInit =
      { fd := (es.filterMap Entry.fd?).getLast?.getD 0
        rootmode := 0
        userId := (es.filterMap Entry.userId?).getLast?.getD 0
        groupId := (es.filterMap Entry.groupId?).getLast?.getD 0
        fdPresent := (es.filterMap Entry.fd?).getLast?.isSome
        userIdPresent := (es.filterMap Entry.userId?).getLast?.isSome
        groupIdPresent := (es.filterMap Entry.groupId?).getLast?.isSome
        maxRead := 0xFFFFFFFF, blksize := tuseDefaultBlksize } := by
  induction es using List.reverseRecOn with
  | nil => rfl
  | append_singleton es e ih =>
      rw [List.foldl_append, List.foldl_cons, List.foldl_nil, ih]
      cases e <;> simp [Entry.apply, Entry.fd?, Entry.userId?, Entry.groupId?]

theorem lastValue_eq {α : Type} (ns : UserNs) (value : Entry → Option α) (ps : List (List Char)) :
    lastValue ns value ps = ((ps.filterMap (entryOf wholeU ns)).filterMap value).getLast? := by
  rw [lastValue, List.filterMap_filterMap]

/-- A key has a last value if and only if it is there. -/
theorem isSome_lastValue {α : Type} {value : Entry → Option α} {k : Key}
    (hvalue : ∀ e, (value e).isSome = true ↔ e.key = k) (ns : UserNs) (ps : List (List Char)) :
    (lastValue ns value ps).isSome = true ↔
      ∃ p ∈ ps, ∃ e, entryOf wholeU ns p = some e ∧ e.key = k := by
  rw [lastValue, List.getLast?_isSome]
  constructor
  · intro h
    obtain ⟨a, ha⟩ := List.exists_mem_of_ne_nil _ h
    obtain ⟨p, hp, hpa⟩ := List.mem_filterMap.mp ha
    obtain ⟨e, he, hea⟩ := Option.bind_eq_some_iff.mp hpa
    exact ⟨p, hp, e, he, (hvalue e).mp (by rw [hea]; rfl)⟩
  · rintro ⟨p, hp, e, he, hk⟩
    obtain ⟨a, ha⟩ := Option.isSome_iff_exists.mp ((hvalue e).mpr hk)
    exact List.ne_nil_of_mem (List.mem_filterMap.mpr ⟨p, hp, by rw [he]; exact ha⟩)

theorem isSome_fd? (e : Entry) : e.fd?.isSome = true ↔ e.key = .fd := by
  cases e <;> simp [Entry.fd?, Entry.key]

theorem isSome_userId? (e : Entry) : e.userId?.isSome = true ↔ e.key = .userId := by
  cases e <;> simp [Entry.userId?, Entry.key]

theorem isSome_groupId? (e : Entry) : e.groupId?.isSome = true ↔ e.key = .groupId := by
  cases e <;> simp [Entry.groupId?, Entry.key]

/-- The parser against the grammar. -/
theorem parseTuseOpt_eq_some_iff (ns : UserNs) (opt : Option (List Char)) (d : TuseMountData) :
    parseTuseOpt ns (fun _ => true) opt = some d ↔
      Grammar wholeU ns (optPieces opt) ∧ d = record ns (optPieces opt) := by
  rw [parseTuseOpt, ← optPieces]
  by_cases h : ∀ p ∈ optPieces opt, p ≠ [] → ∃ e, entryOf wholeU ns p = some e
  · rw [parsePieces_some ns mountDataInit h, foldl_apply, ← lastValue_eq, ← lastValue_eq,
      ← lastValue_eq]
    have hfd := isSome_lastValue isSome_fd? ns (optPieces opt)
    have huser := isSome_lastValue isSome_userId? ns (optPieces opt)
    have hgroup := isSome_lastValue isSome_groupId? ns (optPieces opt)
    by_cases hkeys : ∀ k : Key, ∃ p ∈ optPieces opt, ∃ e, entryOf wholeU ns p = some e ∧ e.key = k
    · simp only [hfd.mpr (hkeys .fd), huser.mpr (hkeys .userId), hgroup.mpr (hkeys .groupId),
        Bool.not_true, Bool.or_self, Bool.false_eq_true, if_false, Option.some.injEq]
      exact ⟨fun hd => ⟨⟨h, hkeys⟩, hd.symm⟩, fun hd => hd.2.symm⟩
    · have hmissing : (!(lastValue ns Entry.fd? (optPieces opt)).isSome ||
          !(lastValue ns Entry.userId? (optPieces opt)).isSome ||
          !(lastValue ns Entry.groupId? (optPieces opt)).isSome) = true := by
        by_contra hall
        simp only [Bool.or_eq_true, Bool.not_eq_true', not_or, Bool.not_eq_false] at hall
        obtain ⟨⟨h₁, h₂⟩, h₃⟩ := hall
        refine hkeys fun k => ?_
        cases k with
        | fd => exact hfd.mp h₁
        | userId => exact huser.mp h₂
        | groupId => exact hgroup.mp h₃
      simp only [hmissing, if_true, reduceCtorEq, false_iff, not_and]
      exact fun hg => absurd hg.keys hkeys
  · have hnone : ∃ p ∈ optPieces opt, p ≠ [] ∧ entryOf wholeU ns p = none := by
      simpa [Option.eq_none_iff_forall_ne_some] using h
    rw [parsePieces_none ns mountDataInit hnone]
    simp only [reduceCtorEq, false_iff, not_and]
    exact fun hg => absurd hg.entries h

/-! ### The same options -/

theorem starts_of_entryOf {numeral : List Char → Bool} {ns : UserNs} {p : List Char} {e : Entry}
    (h : entryOf numeral ns p = some e) : e.key.starts p = true := by
  by_cases hk : ∃ k : Key, k.starts p = true
  · obtain ⟨k, hk⟩ := hk
    rw [entryOf_starts numeral ns hk] at h
    cases k with
    | fd =>
        obtain ⟨v, -, rfl⟩ := Option.map_eq_some_iff.mp h
        exact hk
    | userId =>
        obtain ⟨u, -, rfl⟩ := Option.map_eq_some_iff.mp h
        exact hk
    | groupId =>
        obtain ⟨g, -, rfl⟩ := Option.map_eq_some_iff.mp h
        exact hk
  · rw [entryOf_not_starts numeral ns (by simpa using hk)] at h
    cases h

/-- The last value of a key depends on the pieces with this key only. -/
theorem lastValue_filter {α : Type} {ns : UserNs} {value : Entry → Option α} {k : Key}
    (hvalue : ∀ e, (value e).isSome = true ↔ e.key = k) (ps : List (List Char)) :
    lastValue ns value (ps.filter k.starts) = lastValue ns value ps := by
  have hfun : (fun p => if k.starts p then (entryOf wholeU ns p).bind value else none) =
      fun p => (entryOf wholeU ns p).bind value := by
    funext p
    by_cases hk : k.starts p = true
    · rw [if_pos hk]
    · rw [if_neg hk]
      cases he : entryOf wholeU ns p with
      | none => rfl
      | some e =>
          -- the value of another key
          cases hv : value e with
          | none => simp [hv]
          | some a =>
              have hkey := (hvalue e).mp (by rw [hv]; rfl)
              exact absurd (hkey ▸ starts_of_entryOf he) hk
  rw [lastValue, lastValue, List.filterMap_filter, hfun]

theorem SameOptions.symm {ps ps' : List (List Char)} (h : SameOptions ps ps') :
    SameOptions ps' ps := ⟨h.perm.symm, fun k => (h.order k).symm⟩

theorem SameOptions.mem {ps ps' : List (List Char)} (h : SameOptions ps ps') {p : List Char}
    (hp : p ∈ ps) (hne : p ≠ []) : p ∈ ps' :=
  (List.mem_filter.mp (h.perm.subset (List.mem_filter.mpr ⟨hp, by simpa using hne⟩))).1

theorem Grammar.congr {numeral : List Char → Bool} {ns : UserNs} {ps ps' : List (List Char)}
    (h : SameOptions ps ps') (hg : Grammar numeral ns ps) : Grammar numeral ns ps' where
  entries p hp hne := hg.entries p (h.symm.mem hp hne) hne
  keys k := by
    obtain ⟨p, hp, e, he, hk⟩ := hg.keys k
    refine ⟨p, h.mem hp fun hnil => ?_, e, he, hk⟩
    rw [hnil, entryOf_nil] at he
    cases he

theorem lastValue_congr {α : Type} {ns : UserNs} {value : Entry → Option α} {k : Key}
    (hvalue : ∀ e, (value e).isSome = true ↔ e.key = k) {ps ps' : List (List Char)}
    (h : SameOptions ps ps') : lastValue ns value ps = lastValue ns value ps' := by
  rw [← lastValue_filter hvalue ps, h.order k, lastValue_filter hvalue ps']

theorem record_congr {ns : UserNs} {ps ps' : List (List Char)} (h : SameOptions ps ps') :
    record ns ps = record ns ps' := by
  simp only [record, lastValue_congr isSome_fd? h, lastValue_congr isSome_userId? h,
    lastValue_congr isSome_groupId? h]

/-- **The grammar of the mount options.**  `parse_tuse_opt` accepts exactly the strings of the
grammar in which `%u` says what a numeral is, with their record; empty pieces, and the order of
pieces with different keys, do not matter. -/
theorem parseTuseOpt_grammar (ns : UserNs) :
    (∀ opt d, parseTuseOpt ns (fun _ => true) opt = some d ↔
      Grammar wholeU ns (optPieces opt) ∧ d = record ns (optPieces opt)) ∧
    ∀ opt opt', SameOptions (optPieces opt) (optPieces opt') →
      parseTuseOpt ns (fun _ => true) opt = parseTuseOpt ns (fun _ => true) opt' := by
  refine ⟨parseTuseOpt_eq_some_iff ns, fun opt opt' h => Option.ext fun d => ?_⟩
  rw [parseTuseOpt_eq_some_iff, parseTuseOpt_eq_some_iff, record_congr h]
  exact and_congr_left fun _ => ⟨.congr h, .congr h.symm⟩

/-- An id that is a base-10 number, but not an octal one. -/
def leadingZero : Option (List Char) := some "fd=3,user_id=08,group_id=0".toList

theorem optPieces_leadingZero : optPieces leadingZero =
    [['f', 'd', '=', '3'], ['u', 's', 'e', 'r', '_', 'i', 'd', '=', '0', '8'],
      ['g', 'r', 'o', 'u', 'p', '_', 'i', 'd', '=', '0']] := by
  decide

/-- With every text as a numeral, the string is in the grammar; the parser rejects it. -/
theorem leadingZero_rejected : Grammar (fun _ => true) initUserNs (optPieces leadingZero) ∧
    parseTuseOpt initUserNs (fun _ => true) leadingZero = none := by
  have hfd : entryOf (fun _ => true) initUserNs ['f', 'd', '=', '3'] = some (.fd 3) := by decide
  have huser : entryOf (fun _ => true) initUserNs
      ['u', 's', 'e', 'r', '_', 'i', 'd', '=', '0', '8'] = some (.userId 8) := by decide
  have hgroup : entryOf (fun _ => true) initUserNs
      ['g', 'r', 'o', 'u', 'p', '_', 'i', 'd', '=', '0'] = some (.groupId 0) := by decide
  rw [optPieces_leadingZero]
  refine ⟨⟨?_, fun k => ?_⟩, by decide⟩
  · simp [hfd, huser, hgroup]
  · cases k with
    | fd => exact ⟨_, by simp, _, hfd, rfl⟩
    | userId => exact ⟨_, by simp, _, huser, rfl⟩
    | groupId => exact ⟨_, by simp, _, hgroup, rfl⟩

end KernelMemo.Mount
