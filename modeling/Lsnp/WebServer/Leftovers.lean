import Lsnp.WebServer.Led
import Lsnp.WebServer.Rpi

namespace Lsnp.WebServer

/-- What is left in the arrays of either handler does not matter exactly when the request is
complete, or decided. -/
theorem alone_iff_complete (stream : List Char) :
    ((∀ one two, Rpi.clntConnection stream one = Rpi.clntConnection stream two) ↔
        Rpi.Complete stream) ∧
      ((∀ one two, Led.clntConnection stream one = Led.clntConnection stream two) ↔
        Led.Decided stream) :=
  ⟨Rpi.outcome_alone_iff stream, Led.outcome_alone_iff stream⟩

/-- A client that sends no path replays the one of an earlier request, and a client that sends
nothing the whole request. -/
theorem not_alone_replayed :
    Rpi.clntConnection ['G', 'E', 'T', '\r', '\n', '\r', '\n']
          ⟨.of [], .of [], .of ['/', '?', 'l', 'e', 'd', '=', 'O', 'n']⟩ ≠
        Rpi.clntConnection ['G', 'E', 'T', '\r', '\n', '\r', '\n'] ⟨.of [], .of [], .of ['/']⟩ ∧
      Led.clntConnection [] ⟨['G', 'E', 'T', ' ', '/', 'o', 'n'], [], []⟩ ≠
        Led.clntConnection [] ⟨['G', 'E', 'T', ' ', '/', 'o', 'f', 'f'], [], []⟩ := by
  constructor
  · decide
  · decide

end Lsnp.WebServer
