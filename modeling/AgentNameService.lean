import AgentNameService.Receipt.SignatureForms
import AgentNameService.Registration.Exclusivity
import AgentNameService.Registration.Withdrawal
import AgentNameService.Registration.Follower
import AgentNameService.Registration.FeedWalk
import AgentNameService.Registration.LogOrder
import AgentNameService.Registration.DomainValidation
import AgentNameService.Registration.Issuance
import AgentNameService.Registration.ExpirySweep
import AgentNameService.TransparencyLog.StatusToken
import AgentNameService.TransparencyLog.Sealed
import AgentNameService.TransparencyLog.Availability
import AgentNameService.Finder.Snapshot
import AgentNameService.Finder.Queries
import AgentNameService.Finder.PageToken
import AgentNameService.Identity.ProofAgreement
import AgentNameService.Identity.PinningDialer
