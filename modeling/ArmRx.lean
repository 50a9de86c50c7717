import ArmRx.Config.PoolAddress
import ArmRx.Hash.AesHash
import ArmRx.Hash.Argon2Fill
import ArmRx.Jit.Dataset2WayCall
import ArmRx.Jit.FloatMask
import ArmRx.Jit.GenerateProgram
import ArmRx.Jit.IntegerOps
import ArmRx.Jit.MemoryAccess
import ArmRx.Jit.ScheduleDag
import ArmRx.Jit.ScheduleSound
import ArmRx.Lib.Commute
import ArmRx.Lib.Replay
import ArmRx.Mining.DatasetRequest
import ArmRx.Mining.FillCompletion
import ArmRx.Mining.NonceUnique
import ArmRx.Mining.RotationLockSafety
import ArmRx.Pool.Accounting
import ArmRx.Pool.Disconnect
import ArmRx.Pool.Failover
import ArmRx.Pool.FlatArray
import ArmRx.Pool.LineIsolation
import ArmRx.Pool.ScannersSafe
import ArmRx.Pool.Serialisations
import ArmRx.Pool.Targets
import ArmRx.Vm.GenerateSuperscalar
import ArmRx.Vm.Reciprocal
import ArmRx.Vm.RunInterpreted
