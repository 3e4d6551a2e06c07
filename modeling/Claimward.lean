import Claimward.Library.Base64
import Claimward.Library.Base64Texts
import Claimward.Library.GoText
import Claimward.Library.Inet
import Claimward.Library.InetNumber
import Claimward.Library.Table
import Claimward.Library.LeaseBook
import Claimward.Library.Mailbox
import Claimward.Library.Program
import Claimward.Library.Fallible
import Claimward.Library.Observer
import Claimward.Library.Journal
import Claimward.Library.Fields
import Claimward.Library.Erasure
import Claimward.Library.ServeMux
import Claimward.Library.Runs
import Claimward.Library.Interleaving
import Claimward.Library.Traced
import Claimward.Library.CheckThenAct
import Claimward.Library.Serial
import Claimward.Library.Conflicts
import Claimward.Ipam.Allocator
import Claimward.Ipam.HostRange
import Claimward.Ipam.Mapped
import Claimward.Store
import Claimward.Wg.Key
import Claimward.Wg.Spelling
import Claimward.Wg.Device
import Claimward.Peers.Registry
import Claimward.Tenant.Tenants
import Claimward.Tenant.Membership
import Claimward.Tenant.Slug
import Claimward.Tenant.Hub
import Claimward.Tenant.Broadcast
import Claimward.Tenant.Isolation
import Claimward.Tenant.Updates
import Claimward.Tenant.Atomic
import Claimward.Tenant.Reachable
import Claimward.Tenant.Subscriptions
import Claimward.Tenant.Cleanup
import Claimward.AdminUi.Form
import Claimward.AdminUi.Settled
import Claimward.Api.Server
import Claimward.Api.Handlers
import Claimward.Api.Offers
import Claimward.Api.Calls
import Claimward.Api.Rules
import Claimward.Api.Effects
import Claimward.Api.CallEffect
import Claimward.Api.Addresses
import Claimward.Api.Ownership
import Claimward.Api.Orphans
import Claimward.Api.Agreement
import Claimward.Api.Leases
import Claimward.Api.Foreign
import Claimward.Api.Threads
import Claimward.Api.Holds
import Claimward.Api.Races
import Claimward.Api.Guarded
import Claimward.Api.Backed
import Claimward.Api.Revocation
import Claimward.Api.Enrolling
import Claimward.Api.Contention
import Claimward.Api.Collision
import Claimward.Api.Linearizable
import Claimward.Api.Heartbeats
import Claimward.Api.Renewals
import Claimward.Api.TakenBack
import Claimward.Api.Registrations
import Claimward.Api.Restart
import Claimward.Api.Independence
import Claimward.Api.Overlapping
import Claimward.Api.Mediation
import Claimward.Api.Silence
import Claimward.Api.Capacity
import Claimward.Api.Spellings
import Claimward.Grpc.Watch
import Claimward.Grpc.Sessions
import Claimward.Grpc.Takers
import Claimward.Grpc.Tenancy
import Claimward.Grpc.Delivery
import Claimward.Auth.Verifier
import Claimward.Auth.Matchers
import Claimward.Auth.GitHub
import Claimward.Ssfpoll.Poller
import Claimward.Ssfpoll.Requests
import Claimward.Ssfpoll.Provenance
import Claimward.Ssfpoll.Refinement
import Claimward.Startup.Load
import Claimward.Startup.Settings
import Claimward.Startup.Run
import Claimward.Startup.Order
import Claimward.Http.Surface
import Claimward.Http.Gatekeeping
