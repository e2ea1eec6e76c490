import TagWalk.AttributeList.Desk
import TagWalk.Markup
import TagWalk.Policy
import TagWalk.Rules.Scenario
import TagWalk.Proofs.Course
import TagWalk.Proofs.Prolog
import TagWalk.Proofs.Scopes
import TagWalk.Proofs.Progress
import TagWalk.Proofs.FlatScan
import TagWalk.Proofs.Written
import TagWalk.TreeWalk
import TagWalk.Proofs.Sights
import TagWalk.Proofs.Agreement
import TagWalk.Proofs.Exactness
import TagWalk.Proofs.Nesting
import TagWalk.Proofs.Grounds
import TagWalk.Proofs.Body
import TagWalk.Proofs.Mark
import TagWalk.Proofs.Freshness
import TagWalk.Proofs.Tour
import TagWalk.Proofs.Touring
import TagWalk.Proofs.Interchange
import TagWalk.Proofs.Extension
import TagWalk.Proofs.Shift
import TagWalk.Proofs.Decoding
import TagWalk.Proofs.RoundTrip
import TagWalk.Proofs.Strictness
import TagWalk.Proofs.Truthful
import TagWalk.Proofs.CheckedRuns
import TagWalk.Proofs.Behind
import TagWalk.Proofs.Brackets
import TagWalk.Proofs.Faithful
import TagWalk.Proofs.Reuse
import TagWalk.Proofs.Abort
import TagWalk.Proofs.Places
import TagWalk.Proofs.Reading
import TagWalk.Proofs.Spelling
import TagWalk.Proofs.LongestProlog
import TagWalk.Proofs.Desk
import TagWalk.Proofs.Moves
import TagWalk.Proofs.Trimming
import TagWalk.Proofs.Slots
import TagWalk.Proofs.LateAnswers
