import RadixGates.Breaker.Observation
import RadixGates.Breaker.Tickets
import RadixGates.Breaker.Provenance
import RadixGates.Breaker.Verdicts
import RadixGates.Breaker.CoolDown
import RadixGates.Router.Capacity
import RadixGates.Router.Rendezvous
import RadixGates.Router.Queue
import RadixGates.Router.Stickiness
import RadixGates.Router.Refusals
import RadixGates.Router.Health
import RadixGates.Router.BoundedLoad
import RadixGates.Router.Affinity
import RadixGates.Router.Rejected
import RadixGates.Router.Evenness
import RadixGates.Router.Startup
import RadixGates.Handler.Answered
import RadixGates.Handler.Interrupted
import RadixGates.Handler.Discipline
import RadixGates.Handler.Idle
import RadixGates.Handler.Backoff
import RadixGates.Handler.Forwarding
import RadixGates.Handler.Durations
import RadixGates.Router.Isolation
import RadixGates.Router.Monitoring
import RadixGates.Gateway.Accounts
import RadixGates.Gateway.Requests
import RadixGates.Mock.Warmth
import RadixGates.Gateway.Drain
import RadixGates.Loadgen.Verdict
import RadixGates.Fleet.Warm
import RadixGates.Config.Load
