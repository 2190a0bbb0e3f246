import Fibers.Machine.Reach
import Fibers.Proofs.Rounds
import Fibers.Proofs.Conservation
import Fibers.Proofs.Settling
import Fibers.Proofs.Whereabouts
import Fibers.Script
import Fibers.Stack.Session
import Fibers.Proofs.Nesting
import Fibers.Proofs.Refusals
import Fibers.Proofs.Pools
import Fibers.Proofs.Confinement
import Fibers.Proofs.SuspendedFibers
import Fibers.Proofs.Fates
import Fibers.Proofs.Guards
import Fibers.Proofs.Discarding
import Fibers.Proofs.Tallies
import Fibers.Proofs.Attending
import Fibers.Proofs.Exchanges
import Fibers.Proofs.Suspensions
import Fibers.Proofs.Slices
import Fibers.Proofs.Pairing
import Fibers.Proofs.DriverWarnings
import Fibers.Proofs.Arrivals
import Fibers.Proofs.IdleStacks
import Fibers.Proofs.Lines
import Fibers.Proofs.Returns
import Fibers.Proofs.Sizes
import Fibers.Proofs.Waking
import Fibers.Proofs.Independence
import Fibers.Proofs.Isolation
