import FieldCompression.Main
import FieldCompression.Proofs.EncoderStream.Effects
import FieldCompression.Proofs.FieldSection.Independence
import FieldCompression.Proofs.FieldSection.PrefixReadings
import FieldCompression.Proofs.FieldSection.References
import FieldCompression.Proofs.Interop.Recordings
import FieldCompression.Proofs.Progress.Instructions
import FieldCompression.Proofs.Roundtrip.Sections
import FieldCompression.Proofs.SizeLimit.Accounting
import FieldCompression.Proofs.Strings.Expansion
