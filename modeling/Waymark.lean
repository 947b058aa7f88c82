import Waymark.Regex.Basic
import Waymark.Unicode.Folding
import Waymark.Unicode.Script
import Waymark.Unicode.Property
import Waymark.Text.Path
import Waymark.Text.Percent
import Waymark.Dict
import Waymark.Pattern.Tokenize
import Waymark.Matcher
import Waymark.Payload.Json
import Waymark.Payload.Toml.Read
import Waymark.Decode
import Waymark.Session
import Waymark.Proofs.Registry.Links
import Waymark.Proofs.Registry.Removal
import Waymark.Proofs.Plan.Shape
import Waymark.Proofs.Plan.Sites
import Waymark.Proofs.Registry.Commit
import Waymark.Proofs.Registry.Sites
import Waymark.Proofs.Registry.Search
import Waymark.Proofs.Router.Run
import Waymark.Proofs.Registry.Ranking
import Waymark.Proofs.Router.Removal
import Waymark.Proofs.Router.Chain
import Waymark.Proofs.Router.Addition
import Waymark.Proofs.Router.Stepwise
import Waymark.Proofs.Router.Priority
import Waymark.Proofs.Regex.Ends
import Waymark.Proofs.Regex.Run
import Waymark.Proofs.Regex.Admits
import Waymark.Proofs.Matcher.Backtrack
import Waymark.Proofs.Regex.Reading
import Waymark.Proofs.Regex.Denotation
import Waymark.Proofs.Matcher.Source
import Waymark.Proofs.Matcher.Values
import Waymark.Proofs.Matcher.Recognize
import Waymark.Proofs.Text.Percent
import Waymark.Proofs.Matcher.Build
import Waymark.Proofs.Matcher.Generation
import Waymark.Proofs.Matcher.ReadBack
import Waymark.Proofs.Router.Generation
import Waymark.Proofs.Pattern.Printing
import Waymark.Proofs.Pattern.RoundTrip
import Waymark.Proofs.Router.Order
import Waymark.Proofs.Router.Aliases
import Waymark.Proofs.Regex.Outline
import Waymark.Proofs.Regex.Idle
import Waymark.Proofs.Matcher.Constraint
import Waymark.Proofs.Matcher.Captures
import Waymark.Proofs.Matcher.Rebuild
import Waymark.Proofs.Router.Relative
import Waymark.Proofs.Regex.Classes
import Waymark.Proofs.Regex.ClassMembers
import Waymark.Proofs.Regex.Locality
import Waymark.Proofs.Regex.Constructs
import Waymark.Proofs.Regex.Enclosure
import Waymark.Proofs.Registry.Later
import Waymark.Proofs.Registry.Newest
import Waymark.Proofs.Router.Frame
import Waymark.Proofs.Router.EmptyPath
import Waymark.Proofs.Session.Handles
import Waymark.Proofs.Matcher.CatchAll
import Waymark.Proofs.Matcher.FinalSlash
import Waymark.Proofs.Router.FinalSlash
import Waymark.Proofs.Router.Inheritance
import Waymark.Proofs.Router.Disposal
import Waymark.Proofs.Matcher.Canonical
import Waymark.Proofs.Score.Tokens
import Waymark.Proofs.Pattern.Collapse
import Waymark.Proofs.Router.AsWritten
import Waymark.Proofs.Router.Nesting
import Waymark.Proofs.Matcher.Strict
import Waymark.Proofs.Router.Overlay
import Waymark.Proofs.Matcher.Beneath
import Waymark.Proofs.Router.CatchAll
import Waymark.Proofs.Matcher.Groups
import Waymark.Proofs.Matcher.Conforming
import Waymark.Proofs.Router.CanonicalPath
import Waymark.Proofs.Unicode.Folding
import Waymark.Proofs.Regex.Simulation
import Waymark.Proofs.Matcher.LetterCase
import Waymark.Proofs.Router.Reach
