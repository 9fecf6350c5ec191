import Pagescript.Json.Options
import Pagescript.Page.Scripted
import Pagescript.Proofs.History
import Pagescript.Proofs.Propagation
import Pagescript.Proofs.Relocation
import Pagescript.Runner
import Pagescript.Proofs.Inlining
import Pagescript.Proofs.Onward
import Pagescript.Proofs.Reasons
import Pagescript.Proofs.Waiting
import Pagescript.Proofs.Lifecycle
import Pagescript.Proofs.Recording
import Pagescript.Proofs.Clock
import Pagescript.Proofs.Interruption
import Pagescript.Proofs.Grammar
import Pagescript.Proofs.Records
import Pagescript.Proofs.Stepwise
import Pagescript.Proofs.Journal
import Pagescript.Proofs.Refusal
import Pagescript.Proofs.Flaws
import Pagescript.Proofs.Levels
import Pagescript.Proofs.Faithful
import Pagescript.Proofs.Given
import Pagescript.Proofs.Independence
import Pagescript.Proofs.Translation
import Pagescript.Proofs.Limits
import Pagescript.Proofs.Wording
import Pagescript.Proofs.Dump
import Pagescript.Proofs.Made
import Pagescript.Proofs.RoundTrip
import Pagescript.Proofs.Keys
import Pagescript.Proofs.Release
import Pagescript.Proofs.Binding
import Pagescript.Proofs.Comparisons
import Pagescript.Proofs.Settings
import Pagescript.Proofs.Offending
