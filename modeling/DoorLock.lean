import DoorLock.Lib.Fuel
import DoorLock.Lib.Stack
import DoorLock.Lib.Run
import DoorLock.Lib.CString
import DoorLock.Lib.Ledger
import DoorLock.Message
import DoorLock.View
import DoorLock.Activity
import DoorLock.Effect
import DoorLock.Ui
import DoorLock.Invoke
import DoorLock.System
import DoorLock.DoorTask
import DoorLock.Uart
import DoorLock.FgReader
import DoorLock.FgReaderStep
import DoorLock.World
import DoorLock.UiStep
import DoorLock.UiChange
import DoorLock.WorldStep
import DoorLock.Origin
import DoorLock.Unlock
import DoorLock.DoorMessage
import DoorLock.PaswCopy
import DoorLock.RoundTrip
import DoorLock.UiRun
import DoorLock.Integrity
import DoorLock.Credential
import DoorLock.HomePage
import DoorLock.Drawn
import DoorLock.Exchange
import DoorLock.Hearing
import DoorLock.Frame
import DoorLock.Nesting
import DoorLock.Identify
import DoorLock.FgJob
import DoorLock.JobReplies
import DoorLock.AutoBack
import DoorLock.Deferred
import DoorLock.OnTime
import DoorLock.WakeUp
import DoorLock.TimedLock
import DoorLock.Button
import DoorLock.Keypad
import DoorLock.KeyRepeat
import DoorLock.Buffers
import DoorLock.InputPages
import DoorLock.InvokeReport
import DoorLock.Delivery
import DoorLock.DoorEvents
import DoorLock.Lib.Chain
import DoorLock.Menu
import DoorLock.Lib.Raster
import DoorLock.Oled
import DoorLock.OledLine
import DoorLock.Lib.Wrap
import DoorLock.Label
import DoorLock.LabelText
import DoorLock.LabelWrap
import DoorLock.LabelRows
import DoorLock.LabelDraw
import DoorLock.LabelEnds
import DoorLock.GlyphPaint
import DoorLock.LabelPaint
import DoorLock.GlyphMask
import DoorLock.Lib.Crc
import DoorLock.Lib.Yields
import DoorLock.Lib.Nor
import DoorLock.Lib.Refine
import DoorLock.FdbUtils
import DoorLock.Kvdb
import DoorLock.KvdbWrite
import DoorLock.KvdbInit
import DoorLock.KvImage
import DoorLock.KvRead
import DoorLock.KvSector
import DoorLock.KvIterate
import DoorLock.KvRecords
import DoorLock.KvCache
import DoorLock.KvFind
import DoorLock.KvAlloc
import DoorLock.KvWrite
import DoorLock.KvMove
import DoorLock.KvStep
import DoorLock.KvHalt
import DoorLock.KvMoved
import DoorLock.KvCollect
import DoorLock.KvSet
import DoorLock.KvRecover
import DoorLock.KvRun
import DoorLock.KvBoot
import DoorLock.KvFirst
import DoorLock.KvLife
import DoorLock.KvCut
import DoorLock.DoorStore
import DoorLock.SystemStore
import DoorLock.DeviceStore
import DoorLock.LabelPicture
import DoorLock.PageTexts
import DoorLock.PageTextsRun
import DoorLock.Screen
import DoorLock.InputBox
