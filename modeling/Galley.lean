import Galley.Container.Lines
import Galley.Forms
import Galley.LogFilter
import Galley.Main
import Galley.Proofs.Accounts
import Galley.Proofs.Atomicity
import Galley.Proofs.Duration.Value
import Galley.Proofs.Fulfilment
import Galley.Proofs.Hub.Delivery
import Galley.Proofs.Images
import Galley.Proofs.Job.Identity
import Galley.Proofs.Lines
import Galley.Proofs.Message.RoundTrip
import Galley.Proofs.Paging
import Galley.Proofs.Placement
import Galley.Proofs.Pulls
import Galley.Proofs.PutBack
import Galley.Proofs.Queue.Conservation
import Galley.Proofs.Queue.Filing
import Galley.Proofs.Queue.Normalisation
import Galley.Proofs.Queue.Salvage
import Galley.Proofs.Replacement
import Galley.Proofs.Resources
import Galley.Proofs.Restart
import Galley.Proofs.Socket
import Galley.Proofs.Step.Container
import Galley.Proofs.Step.Supervision
import Galley.Proofs.Text.Utf8
import Galley.Proofs.Trigger.Description
import Galley.Proofs.Trigger.Fire
import Galley.Proofs.Variables
import Galley.Proofs.Visits
import Galley.Report.Layout
import Galley.Socket
import Galley.Visit
