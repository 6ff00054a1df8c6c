import TypedArrays.Boundary.Program
import TypedArrays.Interval.Sheet
import TypedArrays.Workspace
import TypedArrays.Proofs.Engine
import TypedArrays.Proofs.Boundary.Heap
import TypedArrays.Proofs.Boundary.Lanes
import TypedArrays.Proofs.Boundary.Logging
import TypedArrays.Proofs.Boundary.SizeCheck
import TypedArrays.Proofs.Boundary.Snapshot
import TypedArrays.Proofs.Cursor
import TypedArrays.Proofs.Interval.Enclosure
import TypedArrays.Proofs.Interval.Expression
import TypedArrays.Proofs.Operator
import TypedArrays.Proofs.Refusal
import TypedArrays.Proofs.Workspace
import TypedArrays.Proofs.Boundary.Footprint
import TypedArrays.Proofs.Interval.Hull
import TypedArrays.Proofs.Interval.Stepping
import TypedArrays.Proofs.Canonical
import TypedArrays.Proofs.Residue
import TypedArrays.Proofs.Boundary.Cell
import TypedArrays.Proofs.Integers
import TypedArrays.Proofs.Ring
import TypedArrays.Proofs.Division
import TypedArrays.Proofs.Interval.Image
import TypedArrays.Proofs.Interval.Splitting
import TypedArrays.Proofs.Interval.Inclusion
import TypedArrays.Proofs.Interval.Products
import TypedArrays.Proofs.Interval.Quotients
import TypedArrays.Proofs.Interval.Negation
import TypedArrays.Proofs.Interval.Affine
import TypedArrays.Proofs.Limits
import TypedArrays.Proofs.RowMajor
import TypedArrays.Proofs.Equality
import TypedArrays.Proofs.Flattening
import TypedArrays.Proofs.Broadcast
import TypedArrays.Proofs.Encodings
