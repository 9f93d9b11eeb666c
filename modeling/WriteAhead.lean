import WriteAhead.Disk.Actions
import WriteAhead.Log
import WriteAhead.Proofs.Accord
import WriteAhead.Proofs.Atomicity
import WriteAhead.Proofs.Buffers
import WriteAhead.Proofs.Calls
import WriteAhead.Proofs.Consultation
import WriteAhead.Proofs.Failing
import WriteAhead.Proofs.Framing
import WriteAhead.Proofs.Fresh
import WriteAhead.Proofs.Grammar
import WriteAhead.Proofs.Isolation
import WriteAhead.Proofs.Multimap
import WriteAhead.Proofs.Neighbours
import WriteAhead.Proofs.Partition
import WriteAhead.Proofs.Rewriting
import WriteAhead.Proofs.Settled
import WriteAhead.Proofs.Snapshot
import WriteAhead.Proofs.TimeRange
import WriteAhead.Sink.Limited
