import Lsnp.Libc.Strings

namespace Lsnp.Libc

/-- Where the token starts, where the next call goes on, and the array with the token ended. -/
structure Strtok where
  token : Option Nat
  cursor : Nat
  memory : List Char

/-- One call, on the string at this offset of the array. -/
def strtok (delim memory : List Char) (offset : Nat) : Strtok :=
  let string := cString (memory.drop offset)
  let start := offset + (string.takeWhile (· ∈ delim)).length
  let rest := string.dropWhile (· ∈ delim)
  let token := rest.takeWhile (· ∉ delim)
  if rest = [] then ⟨none, start, memory⟩
  else if token = rest then ⟨some start, start + token.length, memory⟩
  else ⟨some start, start + token.length + 1, poke (start + token.length) nul memory⟩

def tokens (delim string : List Char) : List (List Char) :=
  (string.splitOnP (· ∈ delim)).filter (· ≠ [])

/-- These are the maximal runs of other characters between the delimiters of a string. -/
inductive Runs (delim : List Char) : List Char → List (List Char) → Prop where
  | blank {string : List Char} (only : ∀ char ∈ string, char ∈ delim) : Runs delim string []
  | run {front word behind : List Char} {words : List (List Char)}
      (only : ∀ char ∈ front, char ∈ delim) (free : ∀ char ∈ word, char ∉ delim)
      (some : word ≠ []) (ends : ∀ char ∈ behind.head?, char ∈ delim)
      (rest : Runs delim behind words) : Runs delim (front ++ word ++ behind) (word :: words)

/-- A text that consists of these words with gaps of these characters between them. -/
inductive Joined (gap : List Char) : List (List Char) → List Char → Prop where
  | nil : Joined gap [] []
  | last (word : List Char) : Joined gap [word] word
  | cons {word next : List Char} {words : List (List Char)} {blank text : List Char}
      (some : blank ≠ []) (only : ∀ char ∈ blank, char ∈ gap)
      (rest : Joined gap (next :: words) text) :
      Joined gap (word :: next :: words) (word ++ blank ++ text)

variable {delim memory string : List Char} {offset : Nat}

@[simp] theorem tokens_nil : tokens delim [] = [] := by
  simp [tokens, List.splitOnP_nil]

theorem tokens_cons_delim {char : Char} (member : char ∈ delim) (string : List Char) :
    tokens delim (char :: string) = tokens delim string := by
  have split : ([] ++ char :: string).splitOnP (· ∈ delim) = [] :: string.splitOnP (· ∈ delim) :=
    List.splitOnP_append_cons_of_forall_mem (by simp) char (by simpa using member) string
  rw [List.nil_append] at split
  simp [tokens, split]

theorem tokens_dropWhile (string : List Char) :
    tokens delim (string.dropWhile (· ∈ delim)) = tokens delim string := by
  induction string with
  | nil => rfl
  | cons char string ih =>
    by_cases member : char ∈ delim
    · rw [tokens_cons_delim member, List.dropWhile_cons_of_pos (by simpa using member), ih]
    · rw [List.dropWhile_cons_of_neg (by simpa using member)]

theorem tokens_word {word : List Char} (free : ∀ char ∈ word, char ∉ delim) (some : word ≠ []) :
    tokens delim word = [word] := by
  rw [tokens, List.splitOnP_eq_singleton (by simpa using free)]
  simp [some]

theorem tokens_word_append {word : List Char} (free : ∀ char ∈ word, char ∉ delim)
    (some : word ≠ []) {char : Char} (member : char ∈ delim) (string : List Char) :
    tokens delim (word ++ char :: string) = word :: tokens delim string := by
  rw [tokens, List.splitOnP_append_cons_of_forall_mem (by simpa using free) char
    (by simpa using member)]
  simp [some, tokens]

/-- A delimiter separates the tokens in front of it from those behind it. -/
theorem tokens_append_delim {char : Char} (member : char ∈ delim) (front back : List Char) :
    tokens delim (front ++ char :: back) = tokens delim front ++ tokens delim back := by
  rw [tokens, List.splitOnP_append_cons front back (by simpa using member), List.filter_append]
  rfl

private theorem flatten_splitOnP (delim string : List Char) :
    (string.splitOnP (· ∈ delim)).flatten = string.filter (· ∉ delim) := by
  induction string with
  | nil => simp [List.splitOnP_nil]
  | cons char string ih =>
    rw [List.splitOnP_cons_eq_if_modifyHead]
    by_cases member : char ∈ delim
    · simp [member, ih]
    · have some := List.splitOnP_ne_nil (fun char => decide (char ∈ delim)) string
      obtain ⟨head, tail, split⟩ := List.exists_cons_of_ne_nil some
      rw [split] at ih ⊢
      simpa [member] using ih

theorem flatten_tokens (delim string : List Char) :
    (tokens delim string).flatten = string.filter (· ∉ delim) := by
  rw [tokens, List.flatten_filter_ne_nil, flatten_splitOnP]

theorem ne_nil_of_mem_tokens {word : List Char} (member : word ∈ tokens delim string) :
    word ≠ [] := by
  simpa using (List.mem_filter.mp member).2

theorem tokens_eq_nil : tokens delim string = [] ↔ ∀ char ∈ string, char ∈ delim := by
  constructor
  · intro none
    have flat := flatten_tokens delim string
    rw [none, List.flatten_nil, eq_comm, List.filter_eq_nil_iff] at flat
    simpa using flat
  · intro blank
    apply List.eq_nil_iff_forall_not_mem.mpr
    intro word member
    have flat : (tokens delim string).flatten = [] := by
      rw [flatten_tokens, List.filter_eq_nil_iff]
      simpa using blank
    exact ne_nil_of_mem_tokens member (List.flatten_eq_nil_iff.mp flat word member)

theorem tokens_blank_append {blank : List Char} (only : ∀ char ∈ blank, char ∈ delim)
    (string : List Char) : tokens delim (blank ++ string) = tokens delim string := by
  induction blank with
  | nil => rfl
  | cons char blank ih =>
    rw [List.cons_append, tokens_cons_delim (only char (List.mem_cons_self ..))]
    exact ih fun other member => only other (List.mem_cons_of_mem _ member)

theorem tokens_append_blank {blank : List Char} (only : ∀ char ∈ blank, char ∈ delim)
    (string : List Char) : tokens delim (string ++ blank) = tokens delim string := by
  cases blank with
  | nil => rw [List.append_nil]
  | cons char blank =>
    have rest := tokens_eq_nil.mpr fun other member => only other (List.mem_cons_of_mem char member)
    rw [tokens_append_delim (only char (List.mem_cons_self ..)), rest, List.append_nil]

theorem free_of_mem_tokens {word : List Char} (member : word ∈ tokens delim string) :
    ∀ char ∈ word, char ∉ delim := by
  intro char inside
  have flat : char ∈ (tokens delim string).flatten := List.mem_flatten.mpr ⟨word, member, inside⟩
  rw [flatten_tokens] at flat
  simpa using (List.mem_filter.mp flat).2

theorem mem_of_mem_tokens {word : List Char} (member : word ∈ tokens delim string) :
    ∀ char ∈ word, char ∈ string := by
  intro char inside
  have flat : char ∈ (tokens delim string).flatten := List.mem_flatten.mpr ⟨word, member, inside⟩
  rw [flatten_tokens] at flat
  exact (List.mem_filter.mp flat).1

private theorem tokens_run {word behind : List Char} (free : ∀ char ∈ word, char ∉ delim)
    (some : word ≠ []) (ends : ∀ char ∈ behind.head?, char ∈ delim) :
    tokens delim (word ++ behind) = word :: tokens delim behind := by
  cases behind with
  | nil => rw [List.append_nil, tokens_word free some, tokens_nil]
  | cons char behind =>
    have member := ends char rfl
    rw [tokens_word_append free some member, tokens_cons_delim member]

private theorem exists_runs (delim string : List Char) : ∃ words, Runs delim string words := by
  induction length : string.length using Nat.strongRecOn generalizing string with
  | ind count ih =>
    have split : string.takeWhile (· ∈ delim) ++ string.dropWhile (· ∈ delim) = string :=
      List.takeWhile_append_dropWhile
    have only : ∀ char ∈ string.takeWhile (· ∈ delim), char ∈ delim := fun char member => by
      simpa using List.mem_takeWhile_imp member
    have starts := List.head?_dropWhile_not (fun char => decide (char ∈ delim)) string
    generalize string.takeWhile (· ∈ delim) = front at split only
    generalize string.dropWhile (· ∈ delim) = rest at split starts
    cases rest with
    | nil =>
      rw [List.append_nil] at split
      rw [split] at only
      exact ⟨[], .blank only⟩
    | cons char rest =>
      have inside : char ∉ delim := by simpa using starts
      have word : (rest.takeWhile (· ∉ delim)) ++ rest.dropWhile (· ∉ delim) = rest :=
        List.takeWhile_append_dropWhile
      have ends := List.head?_dropWhile_not (fun char => decide (char ∉ delim)) rest
      have free : ∀ char ∈ rest.takeWhile (· ∉ delim), char ∉ delim := fun char member => by
        simpa using List.mem_takeWhile_imp member
      generalize rest.takeWhile (· ∉ delim) = run at word free
      generalize rest.dropWhile (· ∉ delim) = behind at word ends
      have shorter : behind.length < count := by
        rw [← length, ← split, ← word]
        simp only [List.length_append, List.length_cons]
        omega
      obtain ⟨words, runs⟩ := ih behind.length shorter behind rfl
      refine ⟨(char :: run) :: words, ?_⟩
      have whole : front ++ (char :: run) ++ behind = string := by
        rw [← split, ← word]
        simp
      rw [← whole]
      refine .run only ?_ (List.cons_ne_nil _ _) ?_ runs
      · simpa [inside] using free
      · intro other first
        rw [Option.mem_def.mp first] at ends
        simpa using ends

/-- The tokens are the maximal runs, and nothing else is. -/
theorem runs_iff {words : List (List Char)} : Runs delim string words ↔ words = tokens delim string := by
  have only : ∀ {words}, Runs delim string words → words = tokens delim string := by
    intro words runs
    induction runs with
    | blank only => exact (tokens_eq_nil.mpr only).symm
    | run only free some ends rest ih =>
      rw [List.append_assoc, tokens_blank_append only, tokens_run free some ends, ih]
  refine ⟨only, ?_⟩
  rintro rfl
  obtain ⟨words, runs⟩ := exists_runs delim string
  rwa [← only runs]

theorem tokens_joined {gap : List Char} (within : ∀ char ∈ gap, char ∈ delim)
    {words : List (List Char)} {text : List Char} (joined : Joined gap words text)
    (some : ∀ word ∈ words, word ≠ []) (free : ∀ word ∈ words, ∀ char ∈ word, char ∉ delim) :
    tokens delim text = words := by
  induction joined with
  | nil => exact tokens_nil
  | last word => exact tokens_word (free word (by simp)) (some word (by simp))
  | @cons word next words blank text gapped only rest ih =>
    have blanks : ∀ char ∈ blank, char ∈ delim := fun char member => within char (only char member)
    have ends : ∀ char ∈ (blank ++ text).head?, char ∈ delim := by
      cases blank with
      | nil => exact (gapped rfl).elim
      | cons char blank => simpa using blanks char (List.mem_cons_self ..)
    rw [List.append_assoc, tokens_run (free word (by simp)) (some word (by simp)) ends,
      tokens_blank_append blanks, ih (fun other member => some other (List.mem_cons_of_mem _ member))
        fun other member => free other (List.mem_cons_of_mem _ member)]

/-- A text that is joined has only characters of its words and its gaps. -/
theorem mem_joined {gap : List Char} {words : List (List Char)} {text : List Char}
    (joined : Joined gap words text) {char : Char} (member : char ∈ text) :
    char ∈ gap ∨ ∃ word ∈ words, char ∈ word := by
  induction joined with
  | nil => cases member
  | last word => exact .inr ⟨word, List.mem_singleton_self word, member⟩
  | @cons word next words blank text gapped only rest ih =>
    rcases List.mem_append.mp member with early | late
    · rcases List.mem_append.mp early with first | between
      · exact .inr ⟨word, List.mem_cons_self .., first⟩
      · exact .inl (only char between)
    · rcases ih late with between | ⟨other, among, inside⟩
      · exact .inl between
      · exact .inr ⟨other, List.mem_cons_of_mem _ among, inside⟩

theorem length_tokens_le (delim string : List Char) :
    (tokens delim string).length ≤ string.length := by
  have lengths : ∀ words : List (List Char), (∀ word ∈ words, word ≠ []) →
      words.length ≤ words.flatten.length := by
    intro words some
    induction words with
    | nil => exact Nat.le_refl 0
    | cons word words ih =>
      have first := List.length_pos_iff.mpr (some word (List.mem_cons_self ..))
      have rest := ih fun other member => some other (List.mem_cons_of_mem _ member)
      rw [List.flatten_cons, List.length_cons, List.length_append]
      omega
  have short := lengths (tokens delim string) fun word => ne_nil_of_mem_tokens
  rw [flatten_tokens] at short
  exact short.trans (List.length_filter_le _ _)

theorem cString_drop (memory : List Char) {place : Nat} (inside : place ≤ (cString memory).length) :
    cString (memory.drop place) = (cString memory).drop place := by
  induction memory generalizing place with
  | nil => simp [cString]
  | cons char memory ih =>
    cases place with
    | zero => rfl
    | succ place =>
      by_cases last : char = nul
      · simp [cString, last] at inside
      · have step : cString (char :: memory) = char :: cString memory := by
          simp [cString, last]
        rw [step] at inside ⊢
        simpa using ih (by simpa using inside)

private theorem drop_takeWhile (condition : Char → Bool) (string : List Char) :
    string.drop (string.takeWhile condition).length = string.dropWhile condition := by
  induction string with
  | nil => rfl
  | cons char string ih =>
    by_cases held : condition char
    · simpa [held] using ih
    · simp [held]

theorem drop_poke {place : Nat} (inside : place < memory.length) (char : Char) :
    (poke place char memory).drop (place + 1) = memory.drop (place + 1) := by
  have length : (memory.take place).length = place := List.length_take_of_le (Nat.le_of_lt inside)
  rw [poke, List.drop_append, length, List.drop_eq_nil_of_le (by rw [length]; omega)]
  simp

private theorem cString_start (delim memory : List Char) (offset : Nat) :
    cString (memory.drop (offset + ((cString (memory.drop offset)).takeWhile (· ∈ delim)).length)) =
      (cString (memory.drop offset)).dropWhile (· ∈ delim) := by
  rw [← List.drop_drop, cString_drop, drop_takeWhile]
  exact (List.takeWhile_sublist _).length_le

private theorem ended {start : Nat} {token behind : List Char} {char : Char}
    (string : cString (memory.drop start) = token ++ char :: behind) :
    cString ((poke (start + token.length) nul memory).drop start) = token ∧
      cString ((poke (start + token.length) nul memory).drop (start + token.length + 1)) =
        behind := by
  have inside : start + token.length < memory.length := by
    have short := length_cString_le (memory.drop start)
    rw [string, List.length_append, List.length_cons, List.length_drop] at short
    omega
  have free : nul ∉ token := by
    have none := nul_notMem_cString (memory.drop start)
    rw [string] at none
    exact fun member => none (List.mem_append_left _ member)
  have front : (memory.drop start).take token.length = token := by
    have leads : cString (memory.drop start) <+: memory.drop start := List.takeWhile_prefix _
    rw [string] at leads
    exact (List.prefix_iff_eq_take.mp ((List.prefix_append _ _).trans leads)).symm
  constructor
  · have split : (poke (start + token.length) nul memory).drop start =
        token ++ nul :: memory.drop (start + token.length + 1) := by
      rw [poke, List.drop_append_of_le_length, List.drop_take, Nat.add_sub_cancel_left, front]
      rw [List.length_take]
      omega
    rw [split]
    exact cString_append_nul _ free
  · rw [drop_poke inside, Nat.add_assoc, ← List.drop_drop, cString_drop, string]
    · rw [← List.drop_drop, List.drop_left]
      rfl
    · rw [string, List.length_append, List.length_cons]
      omega

/-- The first token of a string, and what is behind the delimiter that ends it. -/
def cutToken (delim string : List Char) : Option (List Char × List Char) :=
  let rest := string.dropWhile (· ∈ delim)
  if rest = [] then none
  else some (rest.takeWhile (· ∉ delim), (rest.dropWhile (· ∉ delim)).tail)

theorem cutToken_word {word behind : List Char} (free : ∀ char ∈ word, char ∉ delim)
    (some' : word ≠ []) (ends : ∀ char ∈ behind.head?, char ∈ delim) :
    cutToken delim (word ++ behind) = some (word, behind.tail) := by
  have begins : (word ++ behind).dropWhile (· ∈ delim) = word ++ behind := by
    cases word with
    | nil => exact (some' rfl).elim
    | cons char word =>
      exact List.dropWhile_cons_of_neg (by simpa using free char (List.mem_cons_self ..))
  have inside : ∀ char ∈ word, decide (char ∉ delim) = true := by simpa using free
  have stops : behind.takeWhile (· ∉ delim) = [] ∧ behind.dropWhile (· ∉ delim) = behind := by
    cases behind with
    | nil => exact ⟨rfl, rfl⟩
    | cons char behind => simpa using ends char rfl
  simp only [cutToken, begins]
  rw [if_neg (by simp [some']), List.takeWhile_append_of_pos inside,
    List.dropWhile_append_of_pos inside, stops.1, stops.2, List.append_nil]

theorem length_cutToken_le {word behind : List Char}
    (cut : cutToken delim string = some (word, behind)) :
    word.length + behind.length ≤ string.length := by
  unfold cutToken at cut
  dsimp only at cut
  split at cut
  · cases cut
  · obtain ⟨rfl, rfl⟩ := Prod.mk.inj (Option.some.inj cut)
    have rest : (string.dropWhile (· ∈ delim)).length ≤ string.length :=
      (List.dropWhile_sublist _).length_le
    have parts : ((string.dropWhile (· ∈ delim)).takeWhile (· ∉ delim)).length +
        ((string.dropWhile (· ∈ delim)).dropWhile (· ∉ delim)).length =
          (string.dropWhile (· ∈ delim)).length := by
      rw [← List.length_append, List.takeWhile_append_dropWhile]
    rw [List.length_tail]
    omega

private theorem free_takeWhile (delim string : List Char) :
    ∀ char ∈ string.takeWhile (· ∉ delim), char ∉ delim := by
  intro char member
  simpa using List.mem_takeWhile_imp member

private theorem takeWhile_of_begins {tail : List Char} (some : tail ≠ [])
    (begins : tail.head some ∉ delim) : tail.takeWhile (· ∉ delim) ≠ [] := by
  cases tail with
  | nil => exact (some rfl).elim
  | cons char tail => simp [show char ∉ delim from begins]

private theorem head_of_dropWhile {tail behind : List Char} {char : Char}
    (rest : tail.dropWhile (· ∉ delim) = char :: behind) : char ∈ delim := by
  have held := List.head_dropWhile_not (fun char => decide (char ∉ delim)) (l := tail)
    (by rw [rest]; exact List.cons_ne_nil _ _)
  simp only [rest, List.head_cons, decide_eq_false_iff_not, not_not] at held
  exact held

private theorem begins_of_dropWhile {string : List Char}
    (some : string.dropWhile (· ∈ delim) ≠ []) :
    (string.dropWhile (· ∈ delim)).head some ∉ delim := by
  have held := List.head_dropWhile_not (fun char => decide (char ∈ delim)) some
  simpa using held

theorem cutToken_eq_none (cut : cutToken delim string = none) : tokens delim string = [] := by
  unfold cutToken at cut
  dsimp only at cut
  split at cut
  · rename_i none
    rw [← tokens_dropWhile, none, tokens_nil]
  · cases cut

theorem cutToken_eq_some {word behind : List Char} (cut : cutToken delim string = some (word, behind)) :
    tokens delim string = word :: tokens delim behind := by
  unfold cutToken at cut
  dsimp only at cut
  split at cut
  · cases cut
  · rename_i some
    obtain ⟨rfl, rfl⟩ := Prod.mk.inj (Option.some.inj cut)
    rw [← tokens_dropWhile]
    have word := takeWhile_of_begins some (begins_of_dropWhile some)
    generalize string.dropWhile (· ∈ delim) = tail at *
    have whole : tail.takeWhile (· ∉ delim) ++ tail.dropWhile (· ∉ delim) = tail :=
      List.takeWhile_append_dropWhile
    have free := free_takeWhile delim tail
    cases rest : tail.dropWhile (· ∉ delim) with
    | nil =>
      rw [rest, List.append_nil] at whole
      rw [whole] at free ⊢
      rw [tokens_word free some, List.tail_nil, tokens_nil]
    | cons char behind =>
      rw [rest] at whole
      rw [List.tail_cons, ← tokens_word_append free word (head_of_dropWhile rest), whole]

theorem strtok_cut_none (cut : cutToken delim (cString (memory.drop offset)) = none) :
    (strtok delim memory offset).token = none := by
  unfold cutToken at cut
  dsimp only at cut
  split at cut
  · rename_i none
    simp [strtok, none]
  · cases cut

/-- The token is ended in place, and behind it is the rest of the string. -/
theorem strtok_cut_some {word behind : List Char}
    (cut : cutToken delim (cString (memory.drop offset)) = some (word, behind)) :
    ∃ start, (strtok delim memory offset).token = some start ∧
      cString ((strtok delim memory offset).memory.drop start) = word ∧
      cString ((strtok delim memory offset).memory.drop
        (strtok delim memory offset).cursor) = behind := by
  have string := cString_start delim memory offset
  unfold cutToken at cut
  dsimp only at cut
  split at cut
  · cases cut
  · rename_i some
    obtain ⟨rfl, rfl⟩ := Prod.mk.inj (Option.some.inj cut)
    unfold strtok
    simp only [if_neg some]
    generalize (cString (memory.drop offset)).dropWhile (· ∈ delim) = tail at *
    generalize offset + ((cString (memory.drop offset)).takeWhile (· ∈ delim)).length = start at *
    have whole : tail.takeWhile (· ∉ delim) ++ tail.dropWhile (· ∉ delim) = tail :=
      List.takeWhile_append_dropWhile
    cases rest : tail.dropWhile (· ∉ delim) with
    | nil =>
      rw [rest, List.append_nil] at whole
      rw [if_pos whole, whole]
      refine ⟨start, rfl, string, ?_⟩
      rw [← List.drop_drop, cString_drop _ (by rw [string]), string, List.drop_length, List.tail_nil]
    | cons char behind =>
      rw [rest] at whole
      have apart : tail.takeWhile (· ∉ delim) ≠ tail := by
        intro same
        rw [same] at whole
        simpa using congrArg List.length whole
      rw [if_neg apart]
      obtain ⟨token, after⟩ := ended (string.trans whole.symm)
      exact ⟨start, rfl, token, after⟩

theorem strtok_none (empty : tokens delim (cString (memory.drop offset)) = []) :
    (strtok delim memory offset).token = none := by
  cases cut : cutToken delim (cString (memory.drop offset)) with
  | none => exact strtok_cut_none cut
  | some pair =>
    rw [cutToken_eq_some cut] at empty
    cases empty

theorem strtok_some {word : List Char} {more : List (List Char)}
    (found : tokens delim (cString (memory.drop offset)) = word :: more) :
    ∃ start, (strtok delim memory offset).token = some start ∧
      cString ((strtok delim memory offset).memory.drop start) = word ∧
      tokens delim (cString ((strtok delim memory offset).memory.drop
        (strtok delim memory offset).cursor)) = more := by
  cases cut : cutToken delim (cString (memory.drop offset)) with
  | none =>
    rw [cutToken_eq_none cut] at found
    cases found
  | some pair =>
    rw [cutToken_eq_some cut] at found
    obtain ⟨rfl, rfl⟩ := List.cons.inj found
    obtain ⟨start, token, string, behind⟩ := strtok_cut_some cut
    exact ⟨start, token, string, congrArg _ behind⟩

end Lsnp.Libc
