import Nachos.Lib.Run
import Nachos.UserProg.ClearPage
import Nachos.UserProg.Frames
import Nachos.UserProg.Content
import Nachos.UserProg.Access
import Nachos.UserProg.Coherence
import Nachos.UserProg.Image
import Nachos.Machine.PhysAddr
import Nachos.Bin.Coff2noff
import Nachos.UserProg.System
import Nachos.UserProg.Isolation
import Nachos.Machine.MipsSim
import Nachos.Machine.Restart
import Nachos.Machine.Multiply
import Nachos.Machine.Alu
import Nachos.Machine.LoadDelay
import Nachos.Machine.Interrupt
import Nachos.Machine.Simultaneous
import Nachos.Lib.Rotation
import Nachos.Machine.DiskLatency
import Nachos.Machine.Console
import Nachos.UserProg.Replacement
import Nachos.UserProg.Transparent
import Nachos.UserProg.Pageable
import Nachos.Lib.Chain
import Nachos.Threads.LinkedList
import Nachos.Threads.Table
import Nachos.Threads.Identifiers
import Nachos.Threads.TableLock
import Nachos.UserProg.Exception
import Nachos.Threads.Scheduler
import Nachos.Threads.Places
import Nachos.Threads.Handshake
import Nachos.Threads.Levels
import Nachos.Threads.Partition
import Nachos.Lib.Monitor
import Nachos.Threads.Synch
import Nachos.Threads.Mailbox
import Nachos.Threads.SynchList
import Nachos.Threads.Whale
import Nachos.Threads.Rendezvous
import Nachos.Threads.Condition
import Nachos.Threads.Semaphore
import Nachos.Threads.Priority
import Nachos.Lib.I386
import Nachos.Threads.Switch
import Nachos.Threads.Coroutines
import Nachos.Lib.Writes
import Nachos.FileSys.OpenFile
import Nachos.FileSys.SynchDisk
import Nachos.FileSys.Directory
import Nachos.Lib.Slots
import Nachos.FileSys.Names
import Nachos.FileSys.FreeMap
import Nachos.FileSys.FileSystem
import Nachos.FileSys.Volume
import Nachos.FileSys.Metadata
import Nachos.FileSys.FileMap
import Nachos.FileSys.Stale
import Nachos.FileSys.Transfer
import Nachos.FileSys.Sequential
import Nachos.FileSys.Creation
import Nachos.FileSys.Requests
import Nachos.FileSys.Mount
import Nachos.FileSys.Interrupted
import Nachos.FileSys.Crash
import Nachos.FileSys.Recovery
import Nachos.Lib.Shelf
import Nachos.FileSys.Fstest
import Nachos.FileSys.CommandLine
import Nachos.UserProg.BitSet
import Nachos.UserProg.Processes
import Nachos.UserProg.Claims
import Nachos.UserProg.Join
import Nachos.UserProg.Traps
import Nachos.UserProg.Crash
import Nachos.UserProg.Clock
import Nachos.UserProg.Progress
import Nachos.UserProg.ExecName
import Nachos.UserProg.Switching
import Nachos.Network.Packet
import Nachos.Network.Post
import Nachos.Network.Office
import Nachos.Network.Delivery
import Nachos.Network.MailTest
