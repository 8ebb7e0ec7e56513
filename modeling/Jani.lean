import Jani.Cap.Equiv.CapTableRun
import Jani.Cap.Equiv.Revocation
import Jani.Drivers.Equiv.BlockComponent
import Jani.Mm.Equiv.HeapRun
import Jani.Mm.Equiv.Paging
import Jani.Net.Equiv.Codecs
import Jani.Net.Equiv.Convergence
import Jani.Net.Equiv.Frame
import Jani.Net.Equiv.Gossip
import Jani.Obj.Equiv.CacheRun
import Jani.Obj.Equiv.Exact
import Jani.Obj.Equiv.Refinement
import Jani.Obj.Equiv.TableRun
import Jani.Replay.Equiv.Session
import Jani.Sched.Equiv.Reservation
import Jani.Wasm.Equiv.MailQueue
