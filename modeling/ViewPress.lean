import ViewPress.Main
import ViewPress.View.Engine
import ViewPress.Proofs.Artifact
import ViewPress.Proofs.Tags
import ViewPress.Proofs.ViewLookup
import ViewPress.Proofs.Rejections
import ViewPress.Proofs.Stability
import ViewPress.Proofs.Scoping
import ViewPress.Proofs.Nesting
import ViewPress.Proofs.TagOrder
import ViewPress.Proofs.Emission
import ViewPress.Proofs.EngineRuns
import ViewPress.Proofs.Requests
import ViewPress.Proofs.Containment
import ViewPress.Proofs.Rebuilding
import ViewPress.Proofs.BaseSearch
import ViewPress.Proofs.Diagnosis
import ViewPress.Proofs.ClassNames
import ViewPress.Proofs.Rendering
import ViewPress.Proofs.Discovery
import ViewPress.Proofs.Fingerprints
import ViewPress.Proofs.Framing
import ViewPress.Proofs.NormalForm
