import UkfsFuse.Logic.Codec

/-!
# The daemon's encoder and libfuse's decoder are inverse

Whatever earlier requests left in the daemon's buffer, the callback of the
request's opcode is invoked with the request's own parameters.
-/

namespace UkfsFuse

open UkfsFuse.Core

theorem RequestIn.known_of_call {input : RequestIn} {call : Call} (h : input.call = some call) :
    input.Known := by
  cases input with
  | other n hn => simp [RequestIn.call] at h
  | _ => trivial

/-- One pass of the daemon over a request of the five kinds invokes the
callback of its opcode, with exactly its parameters and a handle that carries
its `unique`; the bytes in the buffer before the pass have no influence. -/
theorem daemon_decodes_its_message (op : FuseLowlevelOps) (req : FuseUkfsRequest) (call : Call)
    (hcall : req.input.call = some call) (hop : op.implements req.input = true)
    (hfits : req.input.Fits) (buf : Mem) :
    ∃ msg, daemonPass (fuseSessionNewVersioned op) buf req true =
      .processed msg (.handled ⟨req.unique, 0, 0, 1⟩ (.callback call)) := by
  have hknown := RequestIn.known_of_call hcall
  refine ⟨requestMessage buf req, ?_⟩
  have hhandling : req.input.handling op = .callback call := by
    simp only [RequestIn.handling, hcall, hop, if_true]
  simp only [daemonPass, daemonMessage_of_fits buf hknown hfits]
  rw [process_requestMessage buf op hknown hfits, hhandling]

/-- A read at offset `-1`, over a buffer full of stale bytes. -/
theorem daemon_decodes_read :
    ∃ msg, daemonPass (fuseSessionNewVersioned .full) (fun _ => 0xa5)
        (.init 7 (.read 3 9 0xffffffffffffffff 16)) true =
      .processed msg (.handled ⟨7, 0, 0, 1⟩ (.callback (.read 3 16 (-1) { fh := 9 }))) :=
  daemon_decodes_its_message .full (.init 7 (.read 3 9 0xffffffffffffffff 16)) _ rfl rfl trivial _

end UkfsFuse
