import ProtoJson.Main
import ProtoJson.Message.Codec
import ProtoJson.Proofs.Declaration.Respelling
import ProtoJson.Proofs.Message.Conservation
import ProtoJson.Proofs.Message.Layout
import ProtoJson.Proofs.Message.Locality
import ProtoJson.Proofs.Message.Reuse
import ProtoJson.Proofs.Message.RoundTrip
import ProtoJson.Proofs.Message.Strictness
import ProtoJson.Proofs.Message.Tolerance
import ProtoJson.Proofs.Message.Undecoded
import ProtoJson.Proofs.Reader.AfterRejection
import ProtoJson.Proofs.Reader.EscapedBytes
import ProtoJson.Proofs.Reader.Fallback
import ProtoJson.Proofs.Reader.Headway
import ProtoJson.Proofs.Reader.Rereading
import ProtoJson.Proofs.Reader.Scalar
import ProtoJson.Proofs.Schema.Resolution
import ProtoJson.Proofs.Schema.Validity
import ProtoJson.Proofs.Source.Definitions
import ProtoJson.Proofs.Source.EnumTables
import ProtoJson.Proofs.Source.Keys
import ProtoJson.Proofs.Source.Matching
import ProtoJson.Proofs.Source.Variants
import ProtoJson.Proofs.Text.Growth
import ProtoJson.Schema.Example
