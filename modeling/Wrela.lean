import Wrela.Validation.Discipline
import Wrela.BackendProtocol.CodecLaws
import Wrela.Package.GraphCanonical
import Wrela.PackageLoader.ContentAgreement
import Wrela.LocalFormat.OutcomeLaws
import Wrela.TestRunner.Agreement
import Wrela.TestRunner.HarnessLaws
import Wrela.TestRunner.Sha256
import Wrela.Compiler.Cache
import Wrela.TestModel.ScenarioCodecLaws
import Wrela.HirLower.ImportOrder
import Wrela.Toolchain.Exactness
import Wrela.Hir.GroundedLaws
import Wrela.Codegen.ConversionExact
import Wrela.LinkEfi.Provenance
import Wrela.Validation.SupervisionLaws
import Wrela.Validation.MailboxLaws
import Wrela.Validation.ActivationLaws
import Wrela.Validation.BoundedStringLaws
import Wrela.Validation.DominanceLaws
import Wrela.FlowOpt.FoldingLaws
import Wrela.FlowCodec.ChunkedCopy
import Wrela.TestProtocol.CorruptionLaws
import Wrela.TestProtocol.InterruptibleLaws
import Wrela.Formatter.Exactness
import Wrela.Syntax.ScanLaws
import Wrela.Diagnostics.Canonical
import Wrela.Source.Position
