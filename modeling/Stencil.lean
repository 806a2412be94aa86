import Stencil.Number.Reading
import Stencil.Engine.Output
import Stencil.Main
import Stencil.Glob.Matching
import Stencil.Proofs.Render.Inclusion
import Stencil.Proofs.Site.Targets
import Stencil.Proofs.Render.Diagnostics
import Stencil.Proofs.Engine.Operations
import Stencil.Proofs.Engine.Failure
import Stencil.Proofs.Render.Sense
import Stencil.Proofs.Render.Unclosed
import Stencil.Proofs.Render.Seam
import Stencil.Proofs.Render.Inlining
import Stencil.Proofs.Render.Faults
import Stencil.Proofs.Render.Names
import Stencil.Proofs.Render.Cursor
import Stencil.Proofs.Site.Sources
import Stencil.Proofs.Render.Globals
import Stencil.Proofs.Tag.Grammar
import Stencil.Proofs.Site.Checking
import Stencil.Proofs.File.Effects
import Stencil.Proofs.File.Tour
import Stencil.Proofs.Site.Outcome
import Stencil.Proofs.Tag.Walk
import Stencil.Proofs.Tag.Parting
import Stencil.Proofs.Render.Calls
import Stencil.Proofs.Render.Branches
import Stencil.Proofs.Value.Equality
import Stencil.Proofs.Value.Unordered
import Stencil.Proofs.Value.Readable
import Stencil.Proofs.Render.Paths
import Stencil.Proofs.Render.Report
import Stencil.Proofs.Engine.Reload
import Stencil.Proofs.CommandLine.Override
import Stencil.Proofs.Site.Flag
import Stencil.Proofs.Site.DataFiles
import Stencil.Proofs.Render.Strays
