import KernelMemo.CharDev.GetUserPages
import KernelMemo.CharDev.LkmcMmap
import KernelMemo.CharDev.MmapRead
import KernelMemo.CharDev.Pagemap
import KernelMemo.CharDev.SimpleCharInit
import KernelMemo.CharDev.TgwBounds
import KernelMemo.Fuse.Forget
import KernelMemo.Fuse.RequestDrain
import KernelMemo.Rcu.FooNoMemory
import KernelMemo.Rcu.KmodFailedStart
import KernelMemo.Rcu.KmodUnload
import KernelMemo.Rcu.ToyDeadlock
import KernelMemo.Mount.Grammar
import KernelMemo.Mount.Lookup
import KernelMemo.Mount.Outcome
import KernelMemo.Mount.RefCount
import KernelMemo.Tuse.LifeCycle
import KernelMemo.Tuse.ReadCount
import KernelMemo.Tuse.Scatter
