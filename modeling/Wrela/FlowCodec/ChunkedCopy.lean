import Wrela.FlowCodec.Mirrors
import Wrela.TestProtocol.CodecLaws

/-!
# Text copied in chunks

The codec of FlowWir cuts a run of bytes back to the start of a character, the test protocol extends
it to the end of one.  Neither cut shows in the result.
-/

namespace Wrela.FlowCodec

open Wrela.Wire

/-- **Copying text in chunks is transparent.** Both copies are the conversion of the whole run: they
succeed just on valid UTF-8, and keep the bytes. -/
theorem chunkedCopies_transparent (bytes : List UInt8) :
    (FlowCodec.copyUtf8 bytes = fromUtf8 bytes ∧ TestProtocol.copyUtf8 bytes = fromUtf8 bytes) ∧
      ((fromUtf8 bytes).isSome ↔ ByteArray.IsValidUTF8 ⟨bytes.toArray⟩) ∧
      ∀ text, fromUtf8 bytes = some text → utf8Bytes text = bytes := by
  refine ⟨⟨?_, ?_⟩, ?_, fun text ↦ fromUtf8_eq_some.1⟩
  · ext text
    exact FlowCodec.copyUtf8_eq_some.trans fromUtf8_eq_some.symm
  · ext text
    exact TestProtocol.copyUtf8_eq_some.trans fromUtf8_eq_some.symm
  · unfold fromUtf8 String.fromUTF8?
    split <;> simp [*]

end Wrela.FlowCodec
