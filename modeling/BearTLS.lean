import BearTLS.Lib.Base64
import BearTLS.Lib.Bounded
import BearTLS.Lib.Checked
import BearTLS.Lib.Crt
import BearTLS.Lib.Fips180
import BearTLS.Lib.Fuel
import BearTLS.Lib.HeaderBlock
import BearTLS.Lib.Hmac
import BearTLS.Lib.HmacDrbg
import BearTLS.Lib.Holdings
import BearTLS.Lib.Memory
import BearTLS.Lib.MerkleDamgard
import BearTLS.Lib.Pbkdf2
import BearTLS.Lib.Radix
import BearTLS.Lib.Search
import BearTLS.Lib.Terminated
import BearTLS.Lib.Trace
import BearTLS.Lib.WordSearch
import BearTLS.Model.CertStore
import BearTLS.Model.CertStoreOs
import BearTLS.Model.Connection
import BearTLS.Model.Drbg
import BearTLS.Model.Engine
import BearTLS.Model.Exchange
import BearTLS.Model.Hashcash
import BearTLS.Model.Hmac
import BearTLS.Model.Host
import BearTLS.Model.Mega
import BearTLS.Model.MegaChecked
import BearTLS.Model.Pbkdf2
import BearTLS.Model.Prf
import BearTLS.Model.Registration
import BearTLS.Model.Request
import BearTLS.Model.Sha2
import BearTLS.Model.SslKeys
import BearTLS.Model.SslMaster
import BearTLS.Model.SslProcessor
import BearTLS.Model.SslRecord
import BearTLS.Model.SslRecordProtection
import BearTLS.Spec.CertStore
import BearTLS.Spec.CertStoreOs
import BearTLS.Spec.Drbg
import BearTLS.Spec.EngineRuns
import BearTLS.Spec.Hash
import BearTLS.Spec.Loading
import BearTLS.Spec.Mega
import BearTLS.Spec.Network
import BearTLS.Spec.Registration
import BearTLS.Spec.Request
import BearTLS.Spec.Resources
import BearTLS.Spec.Runs
import BearTLS.Spec.SslEndpoint
import BearTLS.Spec.SslHistory
import BearTLS.Spec.SslKeys
import BearTLS.Spec.SslProtection
import BearTLS.Spec.SslSession
import BearTLS.Sanity.Certificates
import BearTLS.Sanity.PlainEngine
import BearTLS.Sanity.Schedules
import BearTLS.Proofs.AnchorBuilding
import BearTLS.Proofs.Appends
import BearTLS.Proofs.Base64Texts
import BearTLS.Proofs.Calls
import BearTLS.Proofs.CertStore
import BearTLS.Proofs.CertStoreOs
import BearTLS.Proofs.Close
import BearTLS.Proofs.Contract
import BearTLS.Proofs.Damage
import BearTLS.Proofs.Drbg
import BearTLS.Proofs.Driver
import BearTLS.Proofs.EndOfStream
import BearTLS.Proofs.Exchange
import BearTLS.Proofs.Hashcash
import BearTLS.Proofs.HashcashText
import BearTLS.Proofs.HashUpdates
import BearTLS.Proofs.Hmac
import BearTLS.Proofs.Inbound
import BearTLS.Proofs.Ledger
import BearTLS.Proofs.LibraryHashes
import BearTLS.Proofs.Loading
import BearTLS.Proofs.Mega
import BearTLS.Proofs.MegaSafety
import BearTLS.Proofs.MegaSession
import BearTLS.Proofs.Outbound
import BearTLS.Proofs.OutParams
import BearTLS.Proofs.ParseBack
import BearTLS.Proofs.Pbkdf2
import BearTLS.Proofs.Pem
import BearTLS.Proofs.Prf
import BearTLS.Proofs.Reading
import BearTLS.Proofs.Received
import BearTLS.Proofs.Registration
import BearTLS.Proofs.Request
import BearTLS.Proofs.Resources
import BearTLS.Proofs.Response
import BearTLS.Proofs.ResultPointer
import BearTLS.Proofs.Runs
import BearTLS.Proofs.Settled
import BearTLS.Proofs.Sha2
import BearTLS.Proofs.Sha2Tables
import BearTLS.Proofs.SslContract
import BearTLS.Proofs.SslDelivery
import BearTLS.Proofs.SslEndpoint
import BearTLS.Proofs.SslHeard
import BearTLS.Proofs.SslHistory
import BearTLS.Proofs.SslMaster
import BearTLS.Proofs.SslNetwork
import BearTLS.Proofs.SslProcessor
import BearTLS.Proofs.SslProtection
import BearTLS.Proofs.SslReceiving
import BearTLS.Proofs.SslRecorded
import BearTLS.Proofs.SslRefinement
import BearTLS.Proofs.SslSession
import BearTLS.Proofs.SslStart
import BearTLS.Proofs.Traffic
import BearTLS.Proofs.TrustAnchors
import BearTLS.Proofs.TwoRuns
