import HalideSchedule.Properties.TailStrategy
import HalideSchedule.Properties.FailedCalls
import HalideSchedule.Properties.RaceGate
import HalideSchedule.Properties.DimensionList
import HalideSchedule.Properties.Specializations
import HalideSchedule.Properties.Algorithm
import HalideSchedule.Properties.Reorder
import HalideSchedule.Properties.Replay
import HalideSchedule.IR.SelectsWithoutDefaults
import HalideSchedule.Schedule.ReorderStorage
import HalideSchedule.Properties.SplitFuse
import HalideSchedule.Vectorize.Exactness
import HalideSchedule.Vectorize.VectorSubs
import HalideSchedule.Vectorize.Datapath
import HalideSchedule.Vectorize.Pass
