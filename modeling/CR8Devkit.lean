import CR8Devkit.Lib.Transition
import CR8Devkit.Lib.Access
import CR8Devkit.Tools.StartScripts
import CR8Devkit.Tools.Deploy
import CR8Devkit.Tools.Isolation
import CR8Devkit.Tools.NullPhdrAt
import CR8Devkit.BlackBox.Layout
import CR8Devkit.BlackBox.Fault
import CR8Devkit.BlackBox.Reentry
import CR8Devkit.BlackBox.Mirror
import CR8Devkit.BlackBox.Pumped
import CR8Devkit.Client.WaitReply
import CR8Devkit.Client.Proto
import CR8Devkit.Client.Pwmd
import CR8Devkit.Client.Uartd
import CR8Devkit.Client.UartJson
import CR8Devkit.Web.Daemon
import CR8Devkit.Web.Send
import CR8Devkit.Web.Applied
import CR8Devkit.Web.UartSend
import CR8Devkit.Web.Page
import CR8Devkit.Web.Lifecycle
import CR8Devkit.Port.Restore
import CR8Devkit.Port.Nesting
import CR8Devkit.Irq.Priority
import CR8Devkit.Irq.Lines
import CR8Devkit.Port.Floating
import CR8Devkit.Port.Alignment
import CR8Devkit.Port.Critical
import CR8Devkit.Client.Bench
import CR8Devkit.Client.CopyShm
import CR8Devkit.Client.Mailbox
import CR8Devkit.Client.Instances
import CR8Devkit.BlackBox.Paint
import CR8Devkit.BlackBox.Cm33
import CR8Devkit.BlackBox.Reader
import CR8Devkit.Lib.RingLog
import CR8Devkit.BlackBox.Guard
import CR8Devkit.BlackBox.Activations
import CR8Devkit.BlackBox.Ring
import CR8Devkit.BlackBox.Startup
