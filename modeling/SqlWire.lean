import SqlWire.Arrays.Builder
import SqlWire.Arrays.Decoder
import SqlWire.Bytes.Cursor
import SqlWire.Copy.ScratchWriter
import SqlWire.Numeric.Buffer
import SqlWire.Numeric.Packed
import SqlWire.Params.Basic
import SqlWire.Record.Builder
import SqlWire.Record.Decoder
import SqlWire.Value.Comparison
import SqlWire.Value.Conversion
import SqlWire.Proofs.Numeric.Positional
import SqlWire.Proofs.Numeric.Value
import SqlWire.Proofs.Numeric.Grammar
import SqlWire.Proofs.Numeric.Parsing
import SqlWire.Proofs.Numeric.Truncation
import SqlWire.Proofs.Numeric.Printing
import SqlWire.Proofs.Binary64.SignificantDigits
import SqlWire.Proofs.Numeric.Reachable
import SqlWire.Proofs.Numeric.WireDecoding
import SqlWire.Proofs.Numeric.WirePrinting
import SqlWire.Proofs.Numeric.Equality
import SqlWire.Proofs.Numeric.SafeCuts
import SqlWire.Proofs.Numeric.SafeDecoding
import SqlWire.Proofs.Run
import SqlWire.Proofs.Copy.Layout
import SqlWire.Proofs.Copy.Emission
import SqlWire.Proofs.Copy.Accepting
import SqlWire.Proofs.Copy.Occupancy
import SqlWire.Proofs.Copy.Refusal
import SqlWire.Proofs.Copy.Resets
import SqlWire.Proofs.Copy.LastingRefusal
import SqlWire.Proofs.Copy.Rows
import SqlWire.Proofs.Arrays.Building
import SqlWire.Proofs.Arrays.RoundTrip
import SqlWire.Proofs.Value.Length
import SqlWire.Proofs.Record.Building
import SqlWire.Proofs.Record.RoundTrip
import SqlWire.Proofs.Conservation
import SqlWire.Proofs.Params.Entries
import SqlWire.Proofs.Params.Listing
import SqlWire.Proofs.Params.Marks
import SqlWire.Proofs.Params.Refusals
import SqlWire.Proofs.Value.RoundTrip
import SqlWire.Proofs.Arrays.Sending
import SqlWire.Proofs.Numeric.CanonicalCuts
import SqlWire.Proofs.Numeric.Conforming
import SqlWire.Proofs.Params.Limit
import SqlWire.Proofs.Calendar.DayCount
import SqlWire.Proofs.Calendar.CivilDates
import SqlWire.Proofs.Calendar.DateOrder
import SqlWire.Proofs.Calendar.UnixTime
import SqlWire.Proofs.Arrays.Acceptance
import SqlWire.Proofs.Value.Appending
import SqlWire.Proofs.CutOff
import SqlWire.Proofs.Copy.TypedWriting
import SqlWire.Proofs.Numeric.Declaring
import SqlWire.Proofs.Calendar.ClockFields
import SqlWire.Proofs.Bytes.Cursor
import SqlWire.Proofs.Binary64.LeadingDigit
import SqlWire.Proofs.Numeric.FloatText
import SqlWire.Proofs.Numeric.Regrouping
