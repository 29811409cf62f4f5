import AmdgpuPro.Kernel
import AmdgpuPro.Lib.Transition
import AmdgpuPro.Lib.Partition
import AmdgpuPro.Vm.Config
import AmdgpuPro.Vm.PageTable
import AmdgpuPro.Vm.PageTableSpec
import AmdgpuPro.Vm.State
import AmdgpuPro.Vm.Map
import AmdgpuPro.Vm.Invariant
import AmdgpuPro.Lib.Serial
import AmdgpuPro.Sync
import AmdgpuPro.Ctx
import AmdgpuPro.Lib.Ledger
import AmdgpuPro.Cs.Model
import AmdgpuPro.Cs.Release
import AmdgpuPro.Cs.Ib
import AmdgpuPro.Uvd.Session
import AmdgpuPro.Uvd.Parse
import AmdgpuPro.Vce.Parse
import AmdgpuPro.Kfd.KernelQueue
import AmdgpuPro.Kfd.Events
import AmdgpuPro.Kfd.ProcessQueues
import AmdgpuPro.Lib.Bitmap
import AmdgpuPro.Lib.Chunks
import AmdgpuPro.Ttm.Memory
import AmdgpuPro.Ttm.Blit
import AmdgpuPro.Ttm.Fill
import AmdgpuPro.Lib.Align
import AmdgpuPro.Lib.CircularLog
import AmdgpuPro.Ring
import AmdgpuPro.Sa.Model
import AmdgpuPro.Sa.Reuse
import AmdgpuPro.Sa.Retry
import AmdgpuPro.Lib.RoundRobin
import AmdgpuPro.Sched.RunQueue
import AmdgpuPro.Lib.Tally
import AmdgpuPro.BoList
import AmdgpuPro.Ttm.GttMgr
import AmdgpuPro.Ttm.Usage
import AmdgpuPro.Mn
import AmdgpuPro.Vce.Sessions
import AmdgpuPro.Vce.Sizes
import AmdgpuPro.Lib.Wrap
import AmdgpuPro.Uvd.Decode
import AmdgpuPro.Cs.Validate
import AmdgpuPro.Vm.Walk
import AmdgpuPro.Vm.Target
import AmdgpuPro.Vm.Split
import AmdgpuPro.Lib.RangeMap
import AmdgpuPro.Kfd.GttSa
import AmdgpuPro.Kfd.Doorbell
import AmdgpuPro.Kfd.Hws
import AmdgpuPro.Kfd.Runlist
import AmdgpuPro.Dc.Context
import AmdgpuPro.Dc.LinkSettings
import AmdgpuPro.Lib.Coalesce
import AmdgpuPro.Vm.Commands
import AmdgpuPro.Vm.IbSize
import AmdgpuPro.Cs.Wait
import AmdgpuPro.Ctx.History
import AmdgpuPro.Sync.Coverage
import AmdgpuPro.Cs.UserFence
import AmdgpuPro.Lib.BucketSort
import AmdgpuPro.BoList.Order
import AmdgpuPro.Cs.Preamble
import AmdgpuPro.Cs.Evict
import AmdgpuPro.Irq.Enable
import AmdgpuPro.Irq.Ih
import AmdgpuPro.Kfd.Interrupt
import AmdgpuPro.Kfd.EventIds
import AmdgpuPro.Kfd.GttSaHeap
import AmdgpuPro.Kfd.WaitFail
import AmdgpuPro.Kfd.WaitWake
import AmdgpuPro.Kfd.CachePolicy
import AmdgpuPro.Kfd.Crat
import AmdgpuPro.Dc.AuxRead
import AmdgpuPro.Lib.Grouping
import AmdgpuPro.Dc.TimingSync
import AmdgpuPro.Dc.LinkTraining
import AmdgpuPro.Dc.Scaling
import AmdgpuPro.Atom.Scratch
import AmdgpuPro.Lib.Lock
import AmdgpuPro.Ttm.Pin
import AmdgpuPro.Ttm.VramMgr
import AmdgpuPro.Lib.While
import AmdgpuPro.Powerplay.EvvMath
import AmdgpuPro.Dc.AuxRetry
import AmdgpuPro.Freesync
import AmdgpuPro.CiDpm
import AmdgpuPro.Lib.Rounding
import AmdgpuPro.Dc.FixedPoint
import AmdgpuPro.Dc.Conversion
import AmdgpuPro.Kfd.ProcessDevice
import AmdgpuPro.Dc.CustomFloat
import AmdgpuPro.Dc.Gamma
import AmdgpuPro.Dc.FixedExp
import AmdgpuPro.Lib.NewtonLog
import AmdgpuPro.Dc.FixedLog
