import VendorCss.Main
import VendorCss.Proofs.Plan
import VendorCss.Proofs.Rules
import VendorCss.Proofs.Sheet.Printing
import VendorCss.Proofs.Prefixing
import VendorCss.Proofs.Compilation
import VendorCss.Proofs.Unplanned
import VendorCss.Proofs.Bundled
import VendorCss.Proofs.Text.Respelling
import VendorCss.Proofs.SwitchedOff
import VendorCss.Proofs.FlexNames
import VendorCss.Proofs.Flexbox
import VendorCss.Proofs.Browser.Resolution
import VendorCss.Proofs.Component.NormalForm
import VendorCss.Proofs.Engine
import VendorCss.Proofs.Forest.Context
import VendorCss.Proofs.Pass.Copies
import VendorCss.Proofs.Pass.Undoing
import VendorCss.Proofs.Pass.PlainCopies
import VendorCss.Proofs.Text.Starts
import VendorCss.Proofs.Value.CrossFade
import VendorCss.Proofs.Value.Gradients
import VendorCss.Proofs.Value.Images
import VendorCss.Proofs.Value.OpenGradient
import VendorCss.Proofs.Value.OtherVendors
import VendorCss.Proofs.Condition.Groups
import VendorCss.Proofs.Sheet.Standing
import VendorCss.Proofs.Pass.Sparing
import VendorCss.Proofs.Supports
import VendorCss.Proofs.Sheet.Rereading
import VendorCss.Proofs.Sheet.Separation
import VendorCss.Proofs.Value.Runs
import VendorCss.Proofs.Pass.Switches
import VendorCss.Proofs.Pass.RuleCopies
import VendorCss.Proofs.Resolution
import VendorCss.Proofs.Pass.Resolution
import VendorCss.Proofs.Control
import VendorCss.Proofs.Idempotence
import VendorCss.Proofs.Separated.Pieces
import VendorCss.Proofs.Value.CrossFadeShare
import VendorCss.Proofs.Pass.Cells
import VendorCss.Proofs.Component.Texts
import VendorCss.Proofs.Grid.TrackLists
import VendorCss.Proofs.Grid.TrackGaps
import VendorCss.Proofs.Grid.TrackCounts
import VendorCss.Proofs.Pass.Lines
import VendorCss.Proofs.Sheet.Children
import VendorCss.Proofs.Pass.Undisturbed
import VendorCss.Proofs.Pass.Steadiness
import VendorCss.Proofs.Grid.Boxes
import VendorCss.Proofs.Grid.Groups
import VendorCss.Proofs.Pass.AreaSteps
import VendorCss.Proofs.Pass.Areas
import VendorCss.Proofs.CommandLine
import VendorCss.Proofs.Value.Stops
import VendorCss.Proofs.Sheet.Sources
import VendorCss.Proofs.Token.Borders
import VendorCss.Proofs.Token.Delimiters
import VendorCss.Proofs.Component.Parts
import VendorCss.Proofs.Component.Entries
import VendorCss.Proofs.Component.CommaLists
import VendorCss.Proofs.Pass.Transitions
