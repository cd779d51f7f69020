import SpannedParsing.Cursor.Description
import SpannedParsing.Grammar.Context
import SpannedParsing.Grammar.Meaning
import SpannedParsing.Proofs.CapturedSpans
import SpannedParsing.Proofs.Commitment
import SpannedParsing.Proofs.CountedBlocks
import SpannedParsing.Proofs.CursorDiscipline
import SpannedParsing.Proofs.CursorRuns
import SpannedParsing.Proofs.LeftFactoring
import SpannedParsing.Proofs.ListSettings
import SpannedParsing.Proofs.Locality
import SpannedParsing.Proofs.LocatedErrors
import SpannedParsing.Proofs.NestedLists
import SpannedParsing.Proofs.NumberedSpans
import SpannedParsing.Proofs.PlaceNumbering
import SpannedParsing.Proofs.Recognition
import SpannedParsing.Proofs.Renaming
import SpannedParsing.Proofs.RepetitionCourse
import SpannedParsing.Proofs.RepetitionLaws
import SpannedParsing.Proofs.SeparatedItems
import SpannedParsing.Proofs.SequenceItems
import SpannedParsing.Proofs.SpanIndependence
import SpannedParsing.Proofs.TextLines
import SpannedParsing.Source
