import VideoFingerprint.Application.Start

/-!
Runs step by step. On a host with a state every step of the application turns one state into
the next; a step that fails ends the run there, and otherwise the next step goes on from the
state that was reached.
-/

namespace VideoFingerprint.Application

variable {σ : Type} {host : Host (StateM σ)} {α β ε : Type}

def answered (error : String → ApplicationError) : Except String Unit → Except Stop Unit
  | .ok () => .ok ()
  | .error reason => .error (.error (error reason))

variable (s : Settings)

def exitCode : Except Stop Unit → Nat
  | .ok () => successCode
  | .error (.error _) => failureCode
  | .error (.abort _) => abortCode

end VideoFingerprint.Application
