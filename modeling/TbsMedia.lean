import TbsMedia.DvbCore.SectionTransparency
import TbsMedia.DvbCore.SectionPlacement
import TbsMedia.DvbCore.Swfilter
import TbsMedia.DvbCore.IntLog
import TbsMedia.DvbCore.Dispatch
import TbsMedia.DvbCore.DecoderSlots
import TbsMedia.DvbCore.FrontendEvents
import TbsMedia.DvbCore.Pes2ts
import TbsMedia.DvbCore.SectionBounds
import TbsMedia.DvbCore.TuneRequests
import TbsMedia.DvbCore.FeedOwnership
import TbsMedia.DvbCore.Oneshot
import TbsMedia.DvbCore.RingParties
import TbsMedia.DvbCore.CaRead
import TbsMedia.DvbCore.CaWrite
import TbsMedia.DvbNet.UleCursor
import TbsMedia.DvbNet.Decapsulation
import TbsMedia.Rc.KeyTableRun
import TbsMedia.Rc.KeyTimer
import TbsMedia.Rc.RawFifo
import TbsMedia.V4l2.EventQueues
import TbsMedia.V4l2.BoundAlign
import TbsMedia.Vb2.Mapped
import TbsMedia.Ctrls.AutoClusters
import TbsMedia.Media.Pipelines
import TbsMedia.M2m.Release
import TbsMedia.M2m.ReadyLists
import TbsMedia.Uvc.Assembly
import TbsMedia.Uvc.IntegerSteps
import TbsMedia.B2c2.HwFilter
import TbsMedia.DvbCore.SectionFilters
import TbsMedia.DvbUsb.Feeds
import TbsMedia.DvbNet.BridgedFrames
import TbsMedia.DvbCore.SectionReads
import TbsMedia.Ctrls.IntegerRounding
