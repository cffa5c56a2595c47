import Mathlib.Data.List.Basic
import Lsnp.WebServer.Rpi

namespace Lsnp.WebServer

open Lsnp.Libc

def command (field : List Char) : Option Level :=
  if field = "led=On".toList then some .high
  else if field = "led=Off".toList then some .low
  else none

/-- What a target says, field for field, behind its first `?`. -/
def commands (target : List Char) : List Level :=
  (((target.dropWhile (· ≠ '?')).tail).splitOn '&').filterMap command

variable {field target : List Char}

/-- A short string is what is left of a longer one only if nothing was left out. -/
theorem take_eq_short {chars short : List Char} {room : Nat} (less : short.length < room) :
    chars.take room = short ↔ chars = short := by
  constructor
  · rintro rfl
    rw [List.length_take] at less
    rw [List.take_of_length_le (by omega)]
  · rintro rfl
    exact List.take_of_length_le (Nat.le_of_lt less)

private theorem value_plain {rest : List Char} (plain : ∀ char ∈ rest, isSpace char = false) :
    (rest.dropWhile isSpace).takeWhile (! isSpace ·) = rest := by
  have kept : rest.dropWhile isSpace = rest := by
    cases rest with
    | nil => rfl
    | cons char rest => exact List.dropWhile_cons_of_neg (by simp [plain char])
  rw [kept, List.takeWhile_eq_self_iff]
  intro char member
  rw [plain char member]
  rfl

/-- A short key and a short value are found in no field but the one that they make up. -/
theorem scanField_eq_some {key value : List Char} (plain : ∀ char ∈ field, isSpace char = false)
    (apart : '=' ∉ key) (shortKey : key.length < 63) (shortValue : value.length < 63)
    (someKey : key ≠ []) (someValue : value ≠ []) :
    scanField field = some (key, value) ↔ field = key ++ '=' :: value := by
  constructor
  · intro found
    unfold scanField at found
    dsimp only at found
    split at found
    · rename_i rest behind
      split at found
      · cases found
      · obtain ⟨front, value'⟩ := Prod.mk.inj (Option.some.inj found)
        rw [front] at behind
        have member : ∀ char ∈ rest, isSpace char = false := fun char member =>
          plain char (List.mem_of_mem_drop (by rw [behind]; exact List.mem_cons_of_mem _ member))
        rw [value_plain member, take_eq_short shortValue] at value'
        rw [take_eq_short shortKey] at front
        have leads : field.takeWhile (· ≠ '=') <+: field := List.takeWhile_prefix _
        rw [front] at leads
        calc
          field = key ++ field.drop key.length := (List.prefix_iff_eq_append.mp leads).symm
          _ = key ++ '=' :: value := by rw [behind, value']
    · cases found
  · rintro rfl
    have front : (key ++ '=' :: value).takeWhile (· ≠ '=') = key := by
      have all : ∀ char ∈ key, decide (char ≠ '=') = true := by
        intro char member
        have other : char ≠ '=' := fun same => apart (same ▸ member)
        simpa using other
      rw [List.takeWhile_append_of_pos all]
      simp
    have whole : (key.take 63, value.take 63) = (key, value) := by
      rw [List.take_of_length_le (Nat.le_of_lt shortKey),
        List.take_of_length_le (Nat.le_of_lt shortValue)]
    obtain ⟨wholeKey, wholeValue⟩ := Prod.mk.inj whole
    have member : ∀ char ∈ value, isSpace char = false := fun char member => plain char (by simp [member])
    simp only [scanField, front, wholeKey, List.drop_left, value_plain member, wholeValue, someKey,
      someValue, or_self, if_false]

/-- However long its parts are and however many `=` it has, a field without blanks is taken
for a command to the LED only if it is one. -/
theorem led_eq_command (plain : ∀ char ∈ field, isSpace char = false) :
    led field = command field := by
  have on := @scanField_eq_some field "led".toList "On".toList plain (by decide) (by decide)
    (by decide) (by decide) (by decide)
  have off := @scanField_eq_some field "led".toList "Off".toList plain (by decide) (by decide)
    (by decide) (by decide) (by decide)
  have spelledOn : "led".toList ++ '=' :: "On".toList = "led=On".toList := rfl
  have spelledOff : "led".toList ++ '=' :: "Off".toList = "led=Off".toList := rfl
  rw [spelledOn] at on
  rw [spelledOff] at off
  simp only [command, ← on, ← off, led]
  cases scanField field with
  | none => simp
  | some pair =>
    obtain ⟨key, value⟩ := pair
    simp only [Option.some.injEq, Prod.mk.injEq]
    by_cases named : key = "led".toList
    · simp only [named, if_true, true_and]
    · simp only [named, if_false, false_and]

theorem mem_of_mem_tokens {delim string word : List Char} (member : word ∈ tokens delim string)
    {char : Char} (within : char ∈ word) : char ∈ string := by
  have flat : char ∈ (tokens delim string).flatten := List.mem_flatten.mpr ⟨word, member, within⟩
  rw [flatten_tokens] at flat
  exact (List.mem_filter.mp flat).1

/-- What is written for a query is what its fields say; the empty ones say nothing. -/
theorem ledWrites_eq {query : List Char} (plain : ∀ char ∈ query, isSpace char = false) :
    ledWrites query = (query.splitOn '&').filterMap command := by
  have split : query.splitOnP (· ∈ ['&']) = query.splitOn '&' := by
    rw [List.splitOn_eq_splitOnP]
    congr
    funext char
    exact Bool.eq_iff_iff.mpr (by simp)
  calc
    ledWrites query = (tokens ['&'] query).filterMap command :=
      List.filterMap_congr fun field member =>
        led_eq_command fun char within => plain char (mem_of_mem_tokens member within)
    _ = (query.splitOn '&').filterMap command := by
      rw [tokens, split, List.filterMap_filter]
      refine List.filterMap_congr fun field _ => ?_
      by_cases empty : field = []
      · subst empty
        rfl
      · simp [empty]

theorem query_eq (path : CString) : query path = (path.chars.dropWhile (· ≠ '?')).tail := by
  have place : path.chars.findIdx (fun char => !decide (char ≠ '?')) = path.chars.idxOf '?' := by
    rw [List.idxOf]
    congr
    funext char
    exact Bool.eq_iff_iff.mpr (by simp)
  rw [List.dropWhile_eq_drop_findIdx_not, place, List.tail_drop]
  unfold query queryAt
  split
  · rename_i none
    split at none
    · cases none
    · rename_i absent
      rw [List.idxOf_eq_length_iff.mpr absent, List.drop_eq_nil_of_le (Nat.le_succ _)]
  · rename_i start some
    split at some
    · rw [← Option.some.inj some]
    · cases some

theorem query_commands {path : CString} (plain : ∀ char ∈ path.chars, isSpace char = false) :
    ledWrites (query path) = commands path.chars := by
  rw [ledWrites_eq, query_eq]
  · rfl
  · intro char member
    rw [query_eq] at member
    exact plain char ((List.dropWhile_sublist _).subset (List.mem_of_mem_tail member))

theorem commands_of_notMem (none : '?' ∉ target) : commands target = [] := by
  have all : target.dropWhile (· ≠ '?') = [] := by
    apply List.dropWhile_eq_nil_iff.mpr
    intro char member
    have other : char ≠ '?' := fun same => none (same ▸ member)
    simpa using other
  rw [commands, all]
  rfl

/-- The two words of a request line that are read. The path is the target, or for want of
one a word of the version. -/
theorem scanRequest_get (target version : List Char)
    (plain : ∀ char ∈ target, isSpace char = false)
    (versioned : target = [] → '?' ∉ version ∧ ∃ char ∈ version, isSpace char = false) :
    ∃ path, scanRequest ("GET ".toList ++ target ++ ' ' :: version) =
        (some "GET".toList, some path) ∧ (∀ char ∈ path, isSpace char = false) ∧
      path ⊆ target ++ version ∧ commands path = commands target := by
  have front : ("GET ".toList ++ target ++ ' ' :: version).dropWhile isSpace =
      "GET".toList ++ ' ' :: (target ++ ' ' :: version) := by simp [isSpace]
  have word : (("GET".toList ++ ' ' :: (target ++ ' ' :: version)).takeWhile (! isSpace ·)) =
      "GET".toList := by simp [isSpace]
  have method : "GET".toList.take 15 = "GET".toList := by decide
  have space : isSpace ' ' = true := rfl
  unfold scanRequest
  simp only [front, word, method]
  rw [List.drop_left, List.dropWhile_cons_of_pos space]
  cases target with
  | nil =>
    obtain ⟨quiet, first, member, visible⟩ := versioned rfl
    rw [List.nil_append, List.dropWhile_cons_of_pos space]
    have within : version.dropWhile isSpace ⊆ version := (List.dropWhile_sublist _).subset
    have some : version.dropWhile isSpace ≠ [] := by
      intro none
      have blank := List.dropWhile_eq_nil_iff.mp none first member
      rw [visible] at blank
      cases blank
    have begins := List.head_dropWhile_not isSpace some
    generalize version.dropWhile isSpace = tail at *
    have path : tail.takeWhile (! isSpace ·) ≠ [] := by
      cases tail with
      | nil => exact (some rfl).elim
      | cons char tail =>
        rw [List.head_cons] at begins
        simp [begins]
    have part : tail.takeWhile (! isSpace ·) ⊆ tail := (List.takeWhile_sublist _).subset
    refine ⟨_, by rw [if_neg (by decide), if_neg path], ?_, fun _ member => within (part member), ?_⟩
    · intro char member
      simpa using List.mem_takeWhile_imp member
    · rw [commands_of_notMem fun member => quiet (within (part member)),
        commands_of_notMem List.not_mem_nil]
  | cons char target =>
    have begins : ¬ isSpace char = true := by simp [plain char]
    have path : ((char :: target) ++ ' ' :: version).takeWhile (! isSpace ·) = char :: target := by
      rw [List.takeWhile_append_of_pos (fun other member => by simp [plain other member]),
        List.takeWhile_cons_of_neg (by simp [space]), List.append_nil]
    rw [List.cons_append, List.dropWhile_cons_of_neg begins, ← List.cons_append, path]
    refine ⟨_, by rw [if_neg (by decide), if_neg (List.cons_ne_nil _ _)], plain, ?_, rfl⟩
    exact List.subset_append_left _ _

/-- A request for a target that is handled alone writes to the LED what the fields of its
query say, in order, and nothing else. -/
theorem writes_commands (target version stream : List Char)
    (request : line stream = "GET ".toList ++ target ++ ' ' :: version)
    (plain : ∀ char ∈ target, isSpace char = false)
    (versioned : target = [] → '?' ∉ version ∧ ∃ char ∈ version, isSpace char = false)
    (free : nul ∉ line stream) (short : (line stream).length < BUFSIZ) :
    (∀ locals, Rpi.clntConnection stream locals = .index (commands target)) ∧
      ∃ path, scanRequest (line stream) = (some "GET".toList, some path) ∧
        ∀ writes, Alone (.of path) writes ↔ writes = commands target := by
  have some : stream ≠ [] := by
    rintro rfl
    cases request
  have read := fgets_line some short
  have whole : cString (line stream) = line stream := cString_of_notMem free
  obtain ⟨path, scanned, still, within, same⟩ := scanRequest_get target version plain versioned
  have string : (CString.of path).chars = path := by
    refine cString_of_notMem fun member => free ?_
    rw [request]
    rcases List.mem_append.mp (within member) with early | late
    · simp [early]
    · simp [late]
  have written : ledWrites (query (.of path)) = commands target := by
    rw [query_commands (by rwa [string]), string, same]
  refine ⟨fun locals => ?_, path, by rw [request, scanned], fun writes => ?_⟩
  · rw [← request] at scanned
    simp only [Rpi.clntConnection, read, whole, scanned, Option.getD_some, ne_eq,
      not_true_eq_false, if_false, written]
  · rw [alone_iff, written]

/-- Three fields, of which two say something. -/
theorem writes_commands_page :
    Rpi.clntConnection "GET /?led=On&led=On=Off&led=Off HTTP/1.1\r\n\r\n".toList
        ⟨.of [], .of [], .of []⟩ =
      .index [.high, .low] :=
  have plain : "/?led=On&led=On=Off&led=Off".toList.all (! isSpace ·) = true := by decide
  (writes_commands "/?led=On&led=On=Off&led=Off".toList "HTTP/1.1\r\n".toList
    "GET /?led=On&led=On=Off&led=Off HTTP/1.1\r\n\r\n".toList (by decide)
    (fun char member => by simpa using List.all_eq_true.mp plain char member) nofun
    (by decide) (by decide)).1 ⟨.of [], .of [], .of []⟩

end Lsnp.WebServer
