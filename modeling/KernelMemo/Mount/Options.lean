import KernelMemo.Lib.OptionString

/-! # Mount options

`parse_tuse_opt` of `old/tuse/inode.c`.

* **User namespaces** are given by what `make_kuid` and `make_kgid` do.
* **Memory.**  Each piece of the string makes at most one allocation, in `match_int` or in
  `match_strdup`; `kmalloc i` says whether that of the piece `i` succeeds.
* **What is accepted.**  `accepted_of_parseTuseOpt`: the three options are there, the ids are
  valid, and the fields that no option sets have their defaults, `rootmode = 0` among them. -/

namespace KernelMemo.Mount

open KernelMemo.OptionString

/-- `struct tuse_mount_data` -/
structure TuseMountData where
  fd : Int
  rootmode : UInt32
  userId : UInt32
  groupId : UInt32
  fdPresent : Bool
  userIdPresent : Bool
  groupIdPresent : Bool
  maxRead : UInt32
  blksize : UInt32
deriving DecidableEq, Repr

/-- `TUSE_DEFAULT_BLKSIZE` -/
def tuseDefaultBlksize : UInt32 := 512

/-- `current_user_ns()` -/
structure UserNs where
  makeKuid : UInt32 → UInt32
  makeKgid : UInt32 → UInt32

/-- The namespace that maps every id to itself. -/
def initUserNs : UserNs := ⟨id, id⟩

/-- `uid_valid` -/
def uidValid (u : UInt32) : Bool := u ≠ 0xFFFFFFFF

/-- `gid_valid` -/
def gidValid (g : UInt32) : Bool := g ≠ 0xFFFFFFFF

inductive Token where
  | optFd
  | optUserId
  | optGroupId
  | optErr
deriving DecidableEq, Repr

/-- The text `key` with `%u` behind it. -/
def keyPattern (key : List Char) : List Directive := key.map .lit ++ [.u]

/-- `tokens`, less the `NULL` pattern of `OPT_ERR` -/
def tokens : List (Token × List Directive) :=
  [(.optFd, keyPattern "fd=".toList),
   (.optUserId, keyPattern "user_id=".toList),
   (.optGroupId, keyPattern "group_id=".toList)]

/-- `tuse_match_uint` -/
def tuseMatchUint (strdup : Bool) (s : List Char) : Except Int UInt32 :=
  if !strdup then .error (-enomem) else kstrtouint 10 s

/-- The start of `parse_tuse_opt`. -/
def mountDataInit : TuseMountData :=
  { fd := 0, rootmode := 0, userId := 0, groupId := 0
    fdPresent := false, userIdPresent := false, groupIdPresent := false
    maxRead := 0xFFFFFFFF, blksize := tuseDefaultBlksize }

/-- One turn of the loop on the piece `p`. -/
def parsePiece (ns : UserNs) (kmalloc : Bool) (d : TuseMountData) (p : List Char) :
    Option TuseMountData :=
  if p = [] then some d
  else match matchToken p tokens .optErr with
    | (.optFd, args) =>
        match matchInt kmalloc (args.headD []) with
        | .error _ => none
        | .ok value => some { d with fd := value, fdPresent := true }
    | (.optUserId, args) =>
        match tuseMatchUint kmalloc (args.headD []) with
        | .error _ => none
        | .ok uv =>
            let d := { d with userId := ns.makeKuid uv }
            if !uidValid d.userId then none else some { d with userIdPresent := true }
    | (.optGroupId, args) =>
        match tuseMatchUint kmalloc (args.headD []) with
        | .error _ => none
        | .ok uv =>
            let d := { d with groupId := ns.makeKgid uv }
            if !gidValid d.groupId then none else some { d with groupIdPresent := true }
    | (.optErr, _) => none

/-- The loop of `parse_tuse_opt`. -/
def parsePieces (ns : UserNs) : (ℕ → Bool) → TuseMountData → List (List Char) →
    Option TuseMountData
  | _, d, [] => some d
  | kmalloc, d, p :: ps =>
      match parsePiece ns (kmalloc 0) d p with
      | none => none
      | some d => parsePieces ns (fun i => kmalloc (i + 1)) d ps

/-- `parse_tuse_opt`: the mount data if it returns 1. -/
def parseTuseOpt (ns : UserNs) (kmalloc : ℕ → Bool) (opt : Option (List Char)) :
    Option TuseMountData :=
  match parsePieces ns kmalloc mountDataInit (opt.elim [] (pieces ',')) with
  | none => none
  | some d => if !d.fdPresent || !d.userIdPresent || !d.groupIdPresent then none else some d

/-! ### What is accepted -/

/-- What holds of the mount data at every turn of the loop. -/
structure WellFormed (d : TuseMountData) : Prop where
  rootmode : d.rootmode = 0
  maxRead : d.maxRead = 0xFFFFFFFF
  blksize : d.blksize = tuseDefaultBlksize
  userId : d.userIdPresent → uidValid d.userId
  groupId : d.groupIdPresent → gidValid d.groupId

/-- What holds of the mount data that `parse_tuse_opt` accepts. -/
structure Accepted (d : TuseMountData) : Prop extends WellFormed d where
  fdPresent : d.fdPresent
  userIdPresent : d.userIdPresent
  groupIdPresent : d.groupIdPresent

variable {ns : UserNs} {d d' : TuseMountData}

/-- What one piece can do. -/
theorem parsePiece_cases {kmalloc : Bool} {p : List Char}
    (h : parsePiece ns kmalloc d p = some d') :
    (p = [] ∧ d' = d) ∨
    (∃ value, d' = { d with fd := value, fdPresent := true }) ∨
    (∃ u, uidValid u ∧ d' = { d with userId := u, userIdPresent := true }) ∨
    (∃ g, gidValid g ∧ d' = { d with groupId := g, groupIdPresent := true }) := by
  simp only [parsePiece] at h
  split at h
  next hp => exact .inl ⟨hp, (Option.some.inj h).symm⟩
  next =>
    split at h
    next =>
      split at h
      · cases h
      · exact .inr (.inl ⟨_, (Option.some.inj h).symm⟩)
    next =>
      split at h
      · cases h
      · split at h
        · cases h
        · next hu => exact .inr (.inr (.inl ⟨_, by simpa using hu, (Option.some.inj h).symm⟩))
    next =>
      split at h
      · cases h
      · split at h
        · cases h
        · next hg => exact .inr (.inr (.inr ⟨_, by simpa using hg, (Option.some.inj h).symm⟩))
    next => cases h

theorem WellFormed.piece {kmalloc : Bool} {p : List Char} (hd : WellFormed d)
    (h : parsePiece ns kmalloc d p = some d') : WellFormed d' := by
  obtain ⟨-, rfl⟩ | ⟨value, rfl⟩ | ⟨u, hu, rfl⟩ | ⟨g, hg, rfl⟩ := parsePiece_cases h
  · exact hd
  · exact { hd with }
  · exact { hd with userId := fun _ => hu }
  · exact { hd with groupId := fun _ => hg }

theorem WellFormed.pieces {kmalloc : ℕ → Bool} {ps : List (List Char)} (hd : WellFormed d)
    (h : parsePieces ns kmalloc d ps = some d') : WellFormed d' := by
  induction ps generalizing kmalloc d with
  | nil =>
      cases h
      exact hd
  | cons p ps ih =>
      simp only [parsePieces] at h
      split at h
      · cases h
      next d₁ hp => exact ih (hd.piece hp) h

theorem wellFormed_mountDataInit : WellFormed mountDataInit :=
  ⟨rfl, rfl, rfl, fun h => absurd h (by decide), fun h => absurd h (by decide)⟩

/-- **Accepted options.**  The three options are there, and nothing else has been set. -/
theorem accepted_of_parseTuseOpt {kmalloc : ℕ → Bool} {opt : Option (List Char)}
    (h : parseTuseOpt ns kmalloc opt = some d) : Accepted d := by
  simp only [parseTuseOpt] at h
  split at h
  · cases h
  next d₁ hps =>
    split at h
    · cases h
    next hpresent =>
      cases h
      simp only [Bool.or_eq_true, Bool.not_eq_true', not_or, Bool.not_eq_false] at hpresent
      exact ⟨wellFormed_mountDataInit.pieces hps, hpresent.1.1, hpresent.1.2, hpresent.2⟩

end KernelMemo.Mount
