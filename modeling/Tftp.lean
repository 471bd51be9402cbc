import Tftp.Main
import Tftp.Rehearsal
import Tftp.Storage.Scripted
import Tftp.Proofs.Delivery
import Tftp.Proofs.Pair
import Tftp.Proofs.Storing
import Tftp.Proofs.Rehearsing
import Tftp.Proofs.Lifecycle
import Tftp.Proofs.Closing
import Tftp.Proofs.RoundTrip
import Tftp.Proofs.Containment
import Tftp.Proofs.Reporting
import Tftp.Proofs.Schedule
import Tftp.Proofs.Bystanders
import Tftp.Proofs.Emission
import Tftp.Proofs.Downloads
import Tftp.Proofs.Commitment
import Tftp.Proofs.Breaking
import Tftp.Proofs.Withdrawal
import Tftp.Proofs.Solitude
import Tftp.Proofs.Usability
import Tftp.Proofs.Normalization
import Tftp.Proofs.Admission
import Tftp.Proofs.Slices
import Tftp.Proofs.Mishaps
import Tftp.Proofs.Halting
import Tftp.Proofs.Accounts
