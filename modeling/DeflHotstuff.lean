import DeflHotstuff.Library.Handler
import DeflHotstuff.Library.Machine
import DeflHotstuff.Library.Quorum
import DeflHotstuff.Library.TwoChain
import DeflHotstuff.Construction.Plain
import DeflHotstuff.Proof.Agreement
import DeflHotstuff.Proof.Votable
import DeflHotstuff.Proof.Crash
import DeflHotstuff.Proof.Repeats
import DeflHotstuff.Proof.Order
import DeflHotstuff.Proof.Delivery
import DeflHotstuff.Proof.Epochs
import DeflHotstuff.Proof.Availability
import DeflHotstuff.Proof.Survival
import DeflHotstuff.Proof.Answers
import DeflHotstuff.Proof.Requests
import DeflHotstuff.Proof.Locks
import DeflHotstuff.Proof.Certificates
import DeflHotstuff.Proof.Thresholds
import DeflHotstuff.Proof.Variants
import DeflHotstuff.Proof.Duplicates
import DeflHotstuff.Proof.CatchUp
import DeflHotstuff.Proof.Sealing
import DeflHotstuff.Proof.Notifications
import DeflHotstuff.Proof.Loopback
import DeflHotstuff.Proof.Collection
import DeflHotstuff.Proof.Resending
import DeflHotstuff.Proof.Responses
import DeflHotstuff.Proof.Filtering
import DeflHotstuff.Proof.Ties
import DeflHotstuff.Proof.Preimages
import DeflHotstuff.Proof.Keys
import DeflHotstuff.Proof.Ledger
import DeflHotstuff.Proof.Uniqueness
import DeflHotstuff.Proof.Progress
import DeflHotstuff.Proof.Replicas
import DeflHotstuff.Proof.Holders
import DeflHotstuff.Proof.Federation
import DeflHotstuff.Proof.Averages
import DeflHotstuff.Proof.Codec
import DeflHotstuff.Proof.GoodRounds
