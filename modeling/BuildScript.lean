import BuildScript.Deps.Life
import BuildScript.Deps.Reader
import BuildScript.Main
import BuildScript.Proofs.Deps.Streaming
import BuildScript.Proofs.Glob.Matching
import BuildScript.Proofs.Glob.Budget
import BuildScript.Proofs.Glob.Walking
import BuildScript.Proofs.Rules.Stream
import BuildScript.Proofs.Glob.Ordered
import BuildScript.Proofs.Session.Halves
import BuildScript.Proofs.Session.Isolation
import BuildScript.Proofs.Glob.Search
import BuildScript.Proofs.Script.Functions
import BuildScript.Proofs.Script.Entering
import BuildScript.Proofs.Session.Telling
import BuildScript.Proofs.Deps.Torn
import BuildScript.Proofs.Rules.Torn
import BuildScript.Proofs.Rules.Skipping
import BuildScript.Proofs.Rules.Filling
import BuildScript.Proofs.Session.Completeness
import BuildScript.Proofs.Script.Arguments
import BuildScript.Proofs.Session.Globbing
import BuildScript.Proofs.Session.ScriptDir
import BuildScript.Proofs.Evaluation.StaleNumber
import BuildScript.Proofs.Glob.Signs
import BuildScript.Proofs.Glob.Agreeing
import BuildScript.Proofs.Glob.Preorder
import BuildScript.Proofs.Session.Checking
import BuildScript.Proofs.Glob.Concatenation
import BuildScript.Proofs.Deps.Lifetime
import BuildScript.Proofs.Rules.Limited
import BuildScript.Proofs.Session.Modules
import BuildScript.Proofs.Glob.Casing
import BuildScript.Proofs.Deps.Incremental
import BuildScript.Proofs.Session.Reordering
import BuildScript.Proofs.Path.Rejoin
import BuildScript.Proofs.Path.Extension
import BuildScript.Proofs.Path.Alike
import BuildScript.Proofs.Glob.Termination
