import Smews.Output.Wire
import Smews.System.Steps

/-! The packets that the device is given.
-/

namespace Smews.System

open Smews.Core Output

/-- The packets of the control handlers and of the segments just generated, with any header and any
contents, verify.
-/
theorem emitted_packet_verifies (p : Program) (s : Server) (e : Endpoint)
    (emits : p.isControl e.outputHandler ∨ p.isGenerator e.outputHandler ∧ FreshSegment s)
    : ∃ bytes, packetBytes p s e = some bytes ∧ Verifies bytes := by
  rcases emits with control | ⟨generator, generated⟩
  · exact packetBytes_control control
  · exact packetBytes_generator generator generated

/-- The server when the text of a page lies in the output buffer. -/
def generatedServer (text : List UInt8) : Server :=
  {
    bootServer with
    heap := bootServer.heap.storeBytes 0 text
    currOutput := {
      bootServer.currOutput with
      buffer := some 0
      contentLength := UInt16.ofNat text.length
      serviceHeader := .standard
    }
  }

/-- The page of five bytes verifies. -/
theorem emitted_packet_verifies_hello
    : ∃ bytes, packetBytes (oneGenerator hello noArgs) (generatedServer (ascii "hello"))
        ⟨0xc0a80105, 4000, 0x42b7a492, 1020, 1000, .resource 0⟩ = some bytes ∧ Verifies bytes :=
  emitted_packet_verifies _ _ _ (.inr ⟨rfl, ⟨(fun none => nomatch none), by decide⟩⟩)

end Smews.System
