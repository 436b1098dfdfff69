import BulletScript.Engine.Client
import BulletScript.Main
import BulletScript.Proofs.Calendar.Readback
import BulletScript.Proofs.Documents.Frontmatter
import BulletScript.Proofs.Engine.Linking
import BulletScript.Proofs.Engine.Checked
import BulletScript.Proofs.Engine.Children
import BulletScript.Proofs.Engine.Clearing
import BulletScript.Proofs.Engine.Handing
import BulletScript.Proofs.Engine.Parting
import BulletScript.Proofs.Engine.Reset
import BulletScript.Proofs.Engine.Return
import BulletScript.Proofs.Engine.SplitLines
import BulletScript.Proofs.Expr.Meaning
import BulletScript.Proofs.Outline.Forest
import BulletScript.Proofs.Script.Document
import BulletScript.Proofs.Script.Entries
import BulletScript.Proofs.Script.Kept
import BulletScript.Proofs.Shell.Escaping
import BulletScript.Proofs.Shell.Substituting
import BulletScript.Proofs.Tasks.Commuting
import BulletScript.Proofs.Tasks.Depth
import BulletScript.Proofs.Tasks.Frame
import BulletScript.Proofs.Tasks.Interleaving
import BulletScript.Proofs.Tasks.Limited
import BulletScript.Proofs.Template.Cutting
import BulletScript.Proofs.Template.Supplied
import BulletScript.Proofs.Template.Roundtrip
import BulletScript.Proofs.Template.Undefined
import BulletScript.Proofs.Template.Segments
import BulletScript.Proofs.Template.Validators
import BulletScript.Proofs.Json.Consumed
import BulletScript.Proofs.Template.Comparison
import BulletScript.Proofs.Template.Conditions
import BulletScript.Proofs.Engine.LoopRounds
import BulletScript.Proofs.Engine.LoopAppending
import BulletScript.Proofs.Engine.Copying
import BulletScript.Proofs.Expr.Division
import BulletScript.Proofs.Script.TextFields
import BulletScript.Proofs.Engine.CursorPlacing
import BulletScript.Proofs.Shell.Output
import BulletScript.Proofs.Template.Scanning
import BulletScript.Proofs.Value.Places
import BulletScript.Proofs.Notify.Targets
