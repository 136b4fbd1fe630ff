/-
Purpose: The atomic steps of the registration service and its ports.  A step is one call of a store outside
  a unit of work, or one whole unit of work; certificate authorities, validators, DNS, the transparency log,
  the clock and the signer are questions whose answers may be anything.
Source: internal/port, internal/adapter/store/sqlite, internal/ra/service
Trusted boundary: human-reviewed model; stores and units of work are atomic, because the database has a
  single connection
-/
import AgentNameService.Foundation.Interleaving
import AgentNameService.Registration.Transactions

namespace AgentNameService.Registration

/-! ### Calls -/

/-- Store calls that only read. -/
inductive Read where
  | findByAgentID (agentID : String)
  | existsByAnsName (name : AnsName)
  | findAllByAgentHost (host : String)
  | findEndpoints (agentID : String)
  | findIdentityCertificatesByAgent (agentID : String)
  | findLatestPendingCSRByType (agentID : String) (type : CSRType)
  | findCSRByID (agentID csrID : String)
  | findLatestValidByAgentID (agentID : String)
  | findByocByAgentID (agentID : String)
  | findRenewalByAgentID (agentID : String)
  | findPendingRenewal (agentID : String)
  | listPendingExpired
  | loadActivationSeal (agentID : String)
  | ready (batchSize : Nat)

namespace Read

def Result : Read → Type
  | .findByAgentID _ => AgentRegistration
  | .existsByAnsName _ => Bool
  | .findAllByAgentHost _ => List AgentRegistration
  | .findEndpoints _ => List String
  | .findIdentityCertificatesByAgent _ => List StoredCertificate
  | .findLatestPendingCSRByType _ _ => Option AgentCSR
  | .findCSRByID _ _ => AgentCSR
  | .findLatestValidByAgentID _ => ByocServerCertificate
  | .findByocByAgentID _ => List ByocServerCertificate
  | .findRenewalByAgentID _ => ServerCertificateRenewal
  | .findPendingRenewal _ => ServerCertificateRenewal
  | .listPendingExpired => List ServerCertificateRenewal
  | .loadActivationSeal _ => Option (Lane × OutboxPayload)
  | .ready _ => List (Nat × OutboxRow)

def exec (now : Time) : (r : Read) → Tx Store Error r.Result
  | .findByAgentID agentID => Store.findByAgentID agentID
  | .existsByAnsName name => Store.existsByAnsName name
  | .findAllByAgentHost host => Store.findAllByAgentHost host
  | .findEndpoints agentID => Store.findEndpoints agentID
  | .findIdentityCertificatesByAgent agentID => Store.findIdentityCertificatesByAgent agentID
  | .findLatestPendingCSRByType agentID type => Store.findLatestPendingCSRByType agentID type
  | .findCSRByID agentID csrID => Store.findCSRByID agentID csrID
  | .findLatestValidByAgentID agentID => Store.findLatestValidByAgentID now agentID
  | .findByocByAgentID agentID => Store.findByocByAgentID agentID
  | .findRenewalByAgentID agentID => Store.findRenewalByAgentID agentID
  | .findPendingRenewal agentID => Store.findPendingRenewal agentID
  | .listPendingExpired => Store.listPendingExpired now
  | .loadActivationSeal agentID => Store.loadActivationSeal agentID
  | .ready batchSize => Store.ready now batchSize

end Read

/-- The updates an outbox worker makes. -/
inductive Delivery where
  | acquire (id attempts : Nat) (token : String) (lease : Time)
  | markSent (id : Nat) (token logID : String)
  | markFailed (id : Nat) (token : String) (attempts : Nat) (lastError : String) (maxDelay : Time)
      (permanent : Bool)
  | markDead (id : Nat) (token reason : String)

namespace Delivery

def Result : Delivery → Type
  | .acquire .. => Bool
  | .markSent .. | .markFailed .. | .markDead .. => Unit

def exec (now : Time) : (d : Delivery) → Tx Store Error d.Result
  | .acquire id attempts token lease => Store.acquire now id attempts token lease
  | .markSent id token logID => Store.markSent now id token logID
  | .markFailed id token attempts lastError maxDelay permanent =>
    Store.markFailed now id token attempts lastError maxDelay permanent
  | .markDead id token reason => Store.markDead now id token reason

end Delivery

/-- The atomic steps: reads, single writes, the worker's updates, and the units of work. -/
inductive Call where
  | read (r : Read)
  | saveAgent (reg : AgentRegistration)
  | saveCSR (agentID : String) (csr : AgentCSR)
  | saveRenewal (r : ServerCertificateRenewal)
  | prepareActivationSeal (agentID : String) (lane : Lane) (payload : OutboxPayload)
  | expireLapsedPendingValidation (now : Time)
  | delivery (d : Delivery)
  | register (reg : AgentRegistration)
  | commitACME (reg : AgentRegistration) (identity : Option (AgentCSR × StoredCertificate))
      (server : Option (ByocServerCertificate × AgentCSR))
  | commitActivation (reg : AgentRegistration) (sealed : SealedActivation)
  | commitRevocation (reg : AgentRegistration) (certs : List StoredCertificate) (reason : RevocationReason)
      (lane : Lane) (now : Time)
  | commitCancellation (reg : AgentRegistration) (certs : List StoredCertificate)
  | sweepCertificates (certs : List StoredCertificate)
  | commitIdentityCSR (reg : AgentRegistration) (signed : AgentCSR) (stored : StoredCertificate)
      (dnsRecords : List String) (lane : Lane)
  | commitServerCSR (agentID : String) (csr : AgentCSR)
  | submitRenewal (agentID : String) (csr : Option AgentCSR) (renewal : ServerCertificateRenewal)
  | cancelRenewal (agentID : String) (renewalID : Nat)
  | commitRenewal (reg : AgentRegistration) (r : ServerCertificateRenewal) (cert : ByocServerCertificate)
      (signed : Option AgentCSR) (dnsRecords : List String) (lane : Lane)

namespace Call

def Reply : Call → Type
  | .read r => r.Result
  | .saveAgent _ => AgentRegistration
  | .prepareActivationSeal .. => Option (Lane × OutboxPayload)
  | .expireLapsedPendingValidation _ => Nat
  | .delivery d => d.Result
  | .register _ => AgentRegistration
  | .commitRevocation .. => AgentRegistration
  | .saveCSR .. | .saveRenewal _ | .commitACME .. | .commitActivation .. | .commitCancellation ..
  | .sweepCertificates _ | .commitIdentityCSR .. | .commitServerCSR .. | .submitRenewal ..
  | .cancelRenewal .. | .commitRenewal .. => Unit

def exec : (c : Call) → Ambient → Tx Store Error c.Reply
  | .read r, ambient => r.exec ambient.now
  | .saveAgent reg, _ => Store.saveAgent reg
  | .saveCSR agentID csr, _ => Store.saveCSR agentID csr
  | .saveRenewal r, _ => Store.saveRenewal r
  | .prepareActivationSeal agentID lane payload, _ => Store.prepareActivationSeal agentID lane payload
  | .expireLapsedPendingValidation now, _ => Store.expireLapsedPendingValidation now
  | .delivery d, ambient => d.exec ambient.now
  | .register reg, _ => Transactions.register reg
  | .commitACME reg identity server, _ => Transactions.commitACME reg identity server
  | .commitActivation reg sealed, ambient => Transactions.commitActivation ambient reg sealed
  | .commitRevocation reg certs reason lane now, ambient =>
    Transactions.commitRevocation ambient reg certs reason lane now
  | .commitCancellation reg certs, _ => Transactions.commitCancellation reg certs
  | .sweepCertificates certs, _ => Store.revokeCertificates certs
  | .commitIdentityCSR reg signed stored dnsRecords lane, ambient =>
    Transactions.commitIdentityCSR ambient reg signed stored dnsRecords lane
  | .commitServerCSR agentID csr, _ => Transactions.commitServerCSR agentID csr
  | .submitRenewal agentID csr renewal, _ => Transactions.submitRenewal agentID csr renewal
  | .cancelRenewal agentID renewalID, ambient => Transactions.cancelRenewal ambient agentID renewalID
  | .commitRenewal reg r cert signed dnsRecords lane, ambient =>
    Transactions.commitRenewal ambient reg r cert signed dnsRecords lane

end Call

/-! ### Questions to the outside world -/

/-- How a certificate provider fails, as far as the service tells the failures apart. -/
inductive ProviderError where
  | throttled (retryAfter : String)
  | legacyOrder
  | orderOwnerMismatch
  | other (text : String)
deriving DecidableEq, Repr

structure IssuedCert where
  certPEM : String
  chainPEM : String := ""
  serialNumber : String := ""
  certificateRef : String := ""
  expiresAt : Time := 0
  issuedAt : Time := 0
deriving DecidableEq, Repr

structure FinalizeOrderRequest where
  ownerID : String
  orderRef : String
  csrPEM : String
  fqdn : String
  verified : List ChallengeType
deriving DecidableEq, Repr

inductive FinalizeOutcome where
  | issued (cert : IssuedCert)
  | orderPending
  | orderFailed
  | error (e : ProviderError)
deriving DecidableEq, Repr

/-- The outcome of checking the required DNS records of a registration: the codes of the mismatches, and
the records that may be attested. -/
structure DNSReport where
  mismatches : List String
  attested : List String
deriving DecidableEq, Repr

/-- The transparency log's answer to a posted event. -/
inductive AppendOutcome where
  | accepted (logID : String)
  | permanent (text : String)
  | transient (text : String)
deriving DecidableEq, Repr

inductive Query where
  | clock
  | uuid
  | challengeTokens
  | validateIdentityCSR (csrPEM ansName : String)
  | validateServerCSR (csrPEM fqdn : String)
  | validateServerCertificate (leafPEM chainPEM fqdn : String)
  | validateEndpoints (endpoints : List String) (fqdn : String)
  | createOrder (ownerID fqdn : String)
  | finalizeOrder (req : FinalizeOrderRequest)
  | issueIdentityCertificate (csrPEM ansName : String)
  | serialFromCertPEM (pem : String)
  | revokeCertificate (serialNumber certificateRef : String) (reason : RevocationReason)
  | verifyDNSChallenge (fqdn recordName recordValue : String)
  | verifyHTTPChallenge (fqdn path content : String)
  | verifyRecords (reg : AgentRegistration)
  | sign (draft : EventDraft)
  | sealAgentEvent (lane : Lane) (payload : OutboxPayload)
  | append (lane : Lane) (payload : OutboxPayload)

def Query.Answer : Query → Type
  | .clock => Time
  | .uuid => String
  | .challengeTokens => Except Error (String × String)
  | .validateIdentityCSR .. | .validateServerCSR .. => Except String Unit
  | .validateServerCertificate .. => Except String ByocServerCertificate
  | .validateEndpoints .. => Except Error Unit
  | .createOrder .. => Except ProviderError (Option CertificateOrder)
  | .finalizeOrder _ => FinalizeOutcome
  | .issueIdentityCertificate .. => Except String IssuedCert
  | .serialFromCertPEM _ => Except String String
  | .revokeCertificate .. => Except String Unit
  | .verifyDNSChallenge .. | .verifyHTTPChallenge .. => Except Error Bool
  | .verifyRecords _ => Except Error DNSReport
  | .sign _ => Except Error OutboxPayload
  | .sealAgentEvent .. => Except Error String
  | .append .. => AppendOutcome

/-- The registration authority as an interface of atomic calls and questions. -/
abbrev RA : Interleaving.Interface where
  State := Store
  Err := Error
  Input := Ambient
  Call := Call
  Reply := Call.Reply
  exec := Call.exec
  Query := Query
  Answer := Query.Answer

end AgentNameService.Registration
