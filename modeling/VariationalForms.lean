import VariationalForms.Space
import VariationalForms.Operator
import VariationalForms.Expr.Basic
import VariationalForms.Expr.Printer
import VariationalForms.Expr.Numerals
import VariationalForms.Expr.Traversal
import VariationalForms.Expr.Product
import VariationalForms.Expr.Substitution
import VariationalForms.Expr.Simplify
import VariationalForms.Expr.Derivative
import VariationalForms.Fault
import VariationalForms.Coefficient
import VariationalForms.Expansion
import VariationalForms.Form
import VariationalForms.Resolution
import VariationalForms.Normalization
import VariationalForms.Binary64
import VariationalForms.Decimal.Shortest
import VariationalForms.Decimal.Layout
import VariationalForms.Decimal.Reader
import VariationalForms.Text.Ranges
import VariationalForms.Text.Blank
import VariationalForms.Text.Extender
import VariationalForms.Text.Invisible
import VariationalForms.Text.Quoted
import VariationalForms.Settings.Value
import VariationalForms.Settings.Document
import VariationalForms.Settings.Reader
import VariationalForms.Settings.LogLevel
import VariationalForms.Settings
import VariationalForms.Proofs.Value
import VariationalForms.Proofs.Reading
import VariationalForms.Proofs.Shape
import VariationalForms.Proofs.Meaning
import VariationalForms.Proofs.Parts
import VariationalForms.Proofs.Nodes
import VariationalForms.Proofs.Legible
import VariationalForms.Proofs.Rules
import VariationalForms.Proofs.Expand
import VariationalForms.Proofs.Visible
import VariationalForms.Proofs.Resolution
import VariationalForms.Proofs.Derivation
import VariationalForms.Proofs.Misreading
import VariationalForms.Proofs.Flattening
import VariationalForms.Proofs.Substitution
import VariationalForms.Proofs.Occurrence
import VariationalForms.Proofs.Completeness
import VariationalForms.Proofs.Jets
import VariationalForms.Proofs.Identities
import VariationalForms.Proofs.OnePass
import VariationalForms.Proofs.Arrangement
import VariationalForms.Proofs.Repetition
import VariationalForms.Proofs.Linearity
import VariationalForms.Proofs.Agreement
import VariationalForms.Proofs.Order
import VariationalForms.Proofs.Walk
import VariationalForms.Proofs.Conservation
import VariationalForms.Proofs.Stability
import VariationalForms.Proofs.Chains
import VariationalForms.Proofs.FlatNames
import VariationalForms.Proofs.Renaming
import VariationalForms.Proofs.Scaling
import VariationalForms.Proofs.Simplification
import VariationalForms.Proofs.Cleaning
import VariationalForms.Proofs.Components
import VariationalForms.Proofs.Dimension
import VariationalForms.Proofs.Rebinding
import VariationalForms.Proofs.Listing
import VariationalForms.Proofs.Pieces
import VariationalForms.Proofs.Faults
import VariationalForms.Proofs.Lines
import VariationalForms.Proofs.Written
import VariationalForms.Proofs.Layout
import VariationalForms.Proofs.Choices
import VariationalForms.Proofs.Accepted
