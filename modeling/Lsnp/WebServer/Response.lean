import Lsnp.Http.Message
import Lsnp.WebServer.Rpi
import Lsnp.WebServer.SendData

namespace Lsnp.Libc

/-- The loop of `fread` and `fwrite`: a block is read into the front of an array, and as many
characters are written as were read, until there are none. -/
def copyOut (size : Nat) [NeZero size] (array file : List Char) : List Char :=
  let length := min size file.length
  let array := file.take size ++ array.drop length
  if _some : 0 < length then array.take length ++ copyOut size array (file.drop size)
  else []
termination_by file.length
decreasing_by
  rw [List.length_drop]
  omega

theorem copyOut_eq (size : Nat) [NeZero size] (array file : List Char) :
    copyOut size array file = file := by
  have positive := Nat.pos_of_ne_zero (NeZero.ne size)
  fun_induction copyOut size array file with
  | case1 array file length array' some ih =>
    have front : array'.take length = file.take size := by
      have lengths : (file.take size).length = length := List.length_take
      rw [← lengths, List.take_left]
    rw [ih, front, List.take_append_drop]
  | case2 array file length none =>
    have empty : file.length = 0 := by omega
    exact (List.length_eq_zero_iff.mp empty).symm

end Lsnp.Libc

namespace Lsnp.WebServer.Rpi

open Lsnp.Libc Lsnp.Http

/-- The texts that `fprintf` is given; the length of the page goes between the last two. -/
def notAllowedText : List Char := "HTTP/1.1 405 Method Not Allowed\r\n\r\n".toList

def notFoundText : List Char := "HTTP/1.1 404 Not Found\r\n\r\n<h1>404 Not Found</h1>".toList

def okText : List Char :=
  "HTTP/1.1 200 OK\r\nContent-Type: text/html; charset=UTF-8\r\nContent-Length: ".toList

def endText : List Char := "\r\n\r\n".toList

/-- What is written to `clnt_write` before it is closed; `ftell` has given the length of the
page. -/
def response (outcome : Outcome) (index : Option (List Char)) (buf : List.Vector Char BUFSIZ) :
    List Char :=
  match outcome, index with
  | .notAllowed, _ => notAllowedText
  | .index _, none => notFoundText
  | .index _, some content =>
    okText ++ Nat.toDigits 10 content.length ++ endText ++ copyOut BUFSIZ buf.toList content

/-- The lines of the status and what else the client is to get. -/
def notAllowed : List Char := "HTTP/1.1 405 Method Not Allowed".toList

def notFound : List Char := "HTTP/1.1 404 Not Found".toList

def ok : List Char := "HTTP/1.1 200 OK".toList

def contentType : List Char := "Content-Type".toList

def html : List Char := "text/html; charset=UTF-8".toList

def notFoundPage : List Char := "<h1>404 Not Found</h1>".toList

def expected (outcome : Outcome) (index : Option (List Char)) : Received :=
  match outcome, index with
  | .notAllowed, _ => ⟨notAllowed, [], [], []⟩
  | .index _, none => ⟨notFound, [], notFoundPage, []⟩
  | .index _, some content =>
    ⟨ok, [(contentType, html), (contentLength, Nat.toDigits 10 content.length)], content, []⟩

private theorem digits_plain (length : Nat) :
    '\r' ∉ Nat.toDigits 10 length ∧ (Nat.toDigits 10 length).head? ≠ some ' ' := by
  have digits : ∀ char ∈ Nat.toDigits 10 length, char.isDigit = true := fun char =>
    Nat.isDigit_of_mem_toDigits (by decide) (by decide)
  constructor
  · intro member
    exact absurd (digits _ member) (by decide)
  · intro blank
    exact absurd (digits _ (List.mem_of_mem_head? blank)) (by decide)

private def refusal : Message where
  status := notAllowed
  fields := []
  body := []
  plain := by decide
  framed _ given := by cases given

private def missing : Message where
  status := notFound
  fields := []
  body := notFoundPage
  plain := by decide
  framed _ given := by cases given

private def page (content : List Char) : Message where
  status := ok
  fields := [⟨contentType, html, by decide, by decide⟩,
    ⟨contentLength, Nat.toDigits 10 content.length, by decide, digits_plain _⟩]
  body := content
  plain := by decide
  framed digits given := by
    have same : some (Nat.toDigits 10 content.length) = some digits := given
    rw [← Option.some.inj same, Nat.ofDigitChars_ten_toDigits]

private theorem response_page (writes : List Level) (content : List Char)
    (buf : List.Vector Char BUFSIZ) :
    response (.index writes) (some content) buf = (page content).text := by
  have front : okText = ok ++ '\r' :: '\n' :: (contentType ++ ':' :: ' ' :: html) ++ '\r' :: '\n' ::
      (contentLength ++ [':', ' ']) := by decide
  have last : endText = ['\r', '\n', '\r', '\n'] := by decide
  rw [response, copyOut_eq, front, last]
  simp [page, Message.text, Message.lines, block, Field.line]

/-- Whatever is asked for and whatever is in the page, the client gets it as it is, and it does
not take a part of the page for the whole. -/
theorem response_received (stream : List Char) (locals : Locals) (index : Option (List Char))
    (buf : List.Vector Char BUFSIZ) :
    let sent := response (clntConnection stream locals) index buf
    receive sent = some (expected (clntConnection stream locals) index) ∧
      (clntConnection stream locals ≠ .notAllowed → index ≠ none →
        ∀ part left, sent = part ++ left → left ≠ [] → receive part = none) := by
  dsimp only
  generalize clntConnection stream locals = outcome
  cases outcome with
  | notAllowed =>
    have same : notAllowedText = refusal.text := by decide
    refine ⟨?_, fun served => (served rfl).elim⟩
    rw [response, same]
    exact Message.receive_text
  | index writes =>
    cases index with
    | none =>
      have same : notFoundText = missing.text := by decide
      refine ⟨?_, fun _ found => (found rfl).elim⟩
      rw [response, same]
      exact Message.receive_text
    | some content =>
      have sized : (page content).Sized := rfl
      rw [response_page]
      exact ⟨Message.receive_text, fun _ _ part left => Message.receive_part sized⟩

end Lsnp.WebServer.Rpi
