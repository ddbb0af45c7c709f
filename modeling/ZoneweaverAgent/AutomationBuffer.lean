import ZoneweaverAgent.ZloginPty

/-!
# The buffer that automation reads

The data handler strips every chunk by itself and keeps the last 100000 characters. Against the
stripped stream, the buffer has the rest of every escape sequence that a chunk ends in.
-/

namespace ZoneweaverAgent.Zlogin

open TextPatterns

section Ansi
variable {u : UInt16} {text rest : Text}

theorem escape_cases (h : isEscape u = true) : u = 27 ∨ u = 155 := by
  simpa [isEscape] using h

/-- No class of the expression but the first has an escape character. -/
theorem not_isEscape (h : isIntermediate u = true ∨ isDigit u = true ∨ oneOf [';'] u = true ∨
    isFinal u = true) : isEscape u = false := by
  rw [Bool.eq_false_iff]
  intro hescape
  revert h
  rcases escape_cases hescape with rfl | rfl <;> decide

theorem local_parameters : Local parameters := by
  have hgroup : Local (seq (one (oneOf [';'])) (upTo (one isDigit) 4)) :=
    (local_one _).seq ((local_one _).upTo 4)
  have hconsuming : Consuming (seq (one (oneOf [';'])) (upTo (one isDigit) 4)) :=
    (consuming_one _).seq ((local_one _).upTo 4)
  exact ((local_one _).seq ((local_one _).upTo 3)).seq (hgroup.many hconsuming)

theorem local_tail :
    Local (seq (many (one isIntermediate)) (seq (maybe parameters) (one isFinal))) :=
  ((local_one _).many (consuming_one _)).seq (local_parameters.maybe.seq (local_one _))

theorem local_ansiRegex : Local ansiRegex := (local_one _).seq local_tail

theorem consuming_ansiRegex : Consuming ansiRegex := (consuming_one _).seq local_tail

/-- A match starts with an escape character and has no other. -/
theorem opens_ansiRegex : Opens isEscape ansiRegex where
  none u text h := by
    simp only [ansiRegex, seq, one, h, Bool.false_eq_true, if_false, List.flatMap_nil]
  rest u text rest h := by
    have hwithin : Within (fun u => !isEscape u)
        (seq (many (one isIntermediate)) (seq (maybe parameters) (one isFinal))) := by
      have hone : ∀ q : UInt16 → Bool, (∀ u, q u = true → isEscape u = false) →
          Within (fun u => !isEscape u) (one q) := by
        intro q hq
        apply within_one
        intro u hu
        simp [hq u hu]
      have hdigit := hone isDigit fun u hu => not_isEscape (.inr (.inl hu))
      have hparameters : Within (fun u => !isEscape u) parameters :=
        (hdigit.seq (hdigit.upTo 3)).seq
          ((hone _ fun u hu => not_isEscape (.inr (.inr (.inl hu)))).seq (hdigit.upTo 4)).many
      exact (hone _ fun u hu => not_isEscape (.inl hu)).many.seq
        (hparameters.maybe.seq (hone _ fun u hu => not_isEscape (.inr (.inr (.inr hu)))))
    simp only [ansiRegex, seq, one] at h
    split_ifs at h with hescape
    · rw [List.flatMap_singleton] at h
      obtain ⟨word, hword, hall⟩ := hwithin text rest h
      exact ⟨word, hword, fun c hc => by simpa using hall c hc⟩
    · cases h

end Ansi

section Buffer
variable {a b : Text}

theorem keepLast_eq (a : Text) : keepLast a = (a.reverse.take bufferLimit).reverse := by
  unfold keepLast
  generalize bufferLimit = n
  rw [List.take_reverse, List.reverse_reverse]
  split_ifs with h
  · rfl
  · rw [Nat.sub_eq_zero_of_le (Nat.le_of_not_lt h), List.drop_zero]

theorem length_keepLast (a : Text) : (keepLast a).length = min bufferLimit a.length := by
  rw [keepLast_eq, List.length_reverse, List.length_take, List.length_reverse]

/-- What was cut off before is cut off in the end. -/
theorem keepLast_append (a b : Text) : keepLast (keepLast a ++ b) = keepLast (a ++ b) := by
  simp only [keepLast_eq, List.reverse_append, List.reverse_reverse]
  generalize bufferLimit = n
  rw [List.take_append, List.take_append, List.take_take, Nat.min_eq_left (Nat.sub_le _ _)]

/-- Where the end is long enough, what stands before it does not matter. -/
theorem keepLast_of_le (a : Text) (h : bufferLimit ≤ b.length) :
    keepLast (a ++ b) = keepLast b := by
  simp only [keepLast_eq, List.reverse_append]
  rw [List.take_append_of_le_length (by rwa [List.length_reverse])]

/-- The stripped buffer of a session after some chunks, and the strips of the chunks. -/
theorem strippedBuffer_foldl (session : Session) (events : List (ℕ × Text)) :
    (events.foldl (fun session e => session.onData e.1 e.2) session).strippedBuffer =
      if events = [] then session.strippedBuffer
      else keepLast (session.strippedBuffer ++ (events.map Prod.snd).flatMap stripAnsi) := by
  induction events generalizing session with
  | nil => rfl
  | cons e events ih =>
    rw [List.foldl_cons, ih, if_neg (List.cons_ne_nil _ _)]
    change (if events = [] then keepLast (session.strippedBuffer ++ stripAnsi e.2) else
      keepLast (keepLast (session.strippedBuffer ++ stripAnsi e.2) ++ _)) = _
    rw [List.map_cons, List.flatMap_cons, keepLast_append, List.append_assoc]
    split_ifs with hnil
    · rw [hnil, List.map_nil, List.flatMap_nil, List.append_nil]
    · rfl

end Buffer

section Chunks
variable (zoneName : String) (pid : ℕ) (events : List (ℕ × Text))

/-- What the data events carry, in their order. -/
def stream : Text := (events.map Prod.snd).flatten

/-- The stripped buffer of a new session after the data events, each with its time. -/
def strippedBuffer : Text :=
  (events.foldl (fun session e => session.onData e.1 e.2)
    (newSession zoneName none none pid 0)).strippedBuffer

/-- Wherever a data event ends inside an escape sequence of the stream, at least 100000 stripped
characters follow. -/
def EndsOutside : Prop :=
  ∃ older newer, events = older ++ newer ∧ Boundary ansiRegex (stream older) (stream newer) ∧
    Whole ansiRegex (newer.map Prod.snd) ∧
    (older = [] ∨ bufferLimit ≤ (stripAnsi (stream newer)).length)

variable {zoneName pid events}

theorem strippedBuffer_eq :
    strippedBuffer zoneName pid events = keepLast ((events.map Prod.snd).flatMap stripAnsi) := by
  unfold strippedBuffer
  rw [strippedBuffer_foldl]
  split_ifs with hnil
  · rw [hnil]
    rfl
  · rfl

theorem endsOutside_of_whole (h : Whole ansiRegex (events.map Prod.snd)) : EndsOutside events :=
  ⟨[], events, rfl, ⟨[], _, rfl, rfl⟩, h, .inl rfl⟩

/-- The buffer is the end of the stripped stream where no cut sequence has left its rest in it; a
buffer that was never cut off shows every such rest. -/
theorem buffer_of_stream (zoneName : String) (pid : ℕ) (events : List (ℕ × Text)) :
    (EndsOutside events →
      strippedBuffer zoneName pid events = keepLast (stripAnsi (stream events))) ∧
    ((stripAnsi (stream events)).length < bufferLimit →
      strippedBuffer zoneName pid events = keepLast (stripAnsi (stream events)) →
      EndsOutside events) := by
  have hm := consuming_ansiRegex
  have hlocal := local_ansiRegex
  rw [strippedBuffer_eq]
  constructor
  · rintro ⟨older, newer, rfl, hboundary, hwhole, hlong⟩
    have hnewer : (newer.map Prod.snd).flatMap stripAnsi = stripAnsi (stream newer) :=
      removeAll_of_whole hm hlocal hwhole
    have hstream : stripAnsi (stream (older ++ newer)) =
        stripAnsi (stream older) ++ stripAnsi (stream newer) := by
      rw [← show stream older ++ stream newer = stream (older ++ newer) by simp [stream]]
      exact hboundary.removeAll hm hlocal
    rw [List.map_append, List.flatMap_append, hnewer, hstream]
    rcases hlong with rfl | hlong
    · rfl
    · rw [keepLast_of_le _ hlong, keepLast_of_le _ hlong]
  · intro hshort heq
    apply endsOutside_of_whole
    by_contra hcut
    have hlonger := length_flatMap_removeAll_lt hm hlocal opens_ansiRegex hcut
    have hlength := congrArg List.length heq
    rw [length_keepLast, length_keepLast] at hlength
    change (stripAnsi (stream events)).length <
      ((events.map Prod.snd).flatMap stripAnsi).length at hlonger
    omega

/-- A red word, and the end of its colour in an event of its own. -/
def redWord : List (ℕ × Text) := [(1, [27, 91, 51, 49, 109, 111, 107]), (2, [27, 91, 109])]

theorem buffer_of_stream_redWord : EndsOutside redWord ∧
    strippedBuffer "web" 7 redWord = keepLast (stripAnsi (stream redWord)) := by
  have hboundary : Boundary ansiRegex [27, 91, 51, 49, 109, 111, 107] [27, 91, 109] :=
    ⟨[.found [27, 91, 51, 49, 109], .char 111, .char 107], [.found [27, 91, 109]],
      by decide +kernel, rfl⟩
  have hwhole : Whole ansiRegex (redWord.map Prod.snd) := by
    apply (whole_cons_iff consuming_ansiRegex local_ansiRegex).mpr
    refine ⟨hboundary, (whole_cons_iff consuming_ansiRegex local_ansiRegex).mpr ⟨?_, ?_⟩⟩
    · exact ⟨[.found [27, 91, 109]], [], by decide +kernel, rfl⟩
    · intro before after hsplit
      obtain ⟨rfl, rfl⟩ := List.nil_eq_append_iff.mp hsplit
      exact ⟨[], [], rfl, rfl⟩
  have houtside := endsOutside_of_whole hwhole
  exact ⟨houtside, (buffer_of_stream "web" 7 redWord).1 houtside⟩

/-- Cut before its last character, a sequence leaves that character in the buffer. -/
theorem buffer_of_stream_fails :
    ¬∀ (zoneName : String) (pid : ℕ) (events events' : List (ℕ × Text)),
    stream events = stream events' →
    strippedBuffer zoneName pid events = strippedBuffer zoneName pid events' ∧
      strippedBuffer zoneName pid events = keepLast (stripAnsi (stream events)) := by
  intro h
  have hsame := (h "web" 7 [(1, [27, 91, 51, 49, 109])] [(1, [27, 91, 51, 49]), (2, [109])] rfl).1
  revert hsame
  decide +kernel

end Chunks

end ZoneweaverAgent.Zlogin
