import ZoneweaverAgent.CommandProgram

/-!
# Parts of a system

A system is a part of a larger one when what it sees of the larger world changes only by its own
events and commands. A program of the part is then a program of the whole, and what it meets in the
part it meets there, whatever else the larger world does; a frame of the rest is kept along.
-/

namespace CommandPart

open CommandProgram

variable {World World' Cmd Cmd' Reply Reply' Choice Choice' Event Event' α : Type}

theorem safe_weaken {S : System World Cmd Reply Choice Event} {ok : World → Cmd → Choice → Prop}
    {I I' : World → Prop} {Q : α → World → Prop} {p : Program Cmd Reply α} {w : World}
    (h : Safe S ok I Q p w) (hI : ∀ w, I w → I' w) : Safe S ok I' Q p w := by
  induction p generalizing w with
  | done a => exact fun w' hd => ⟨hI _ (h w' hd).1, (h w' hd).2⟩
  | call c next ih =>
    exact fun w' hd => ⟨hI _ (h w' hd).1, fun choice r w'' hok hstep =>
      ih r ((h w' hd).2 choice r w'' hok hstep)⟩

structure Part (S : System World Cmd Reply Choice Event)
    (S' : System World' Cmd' Reply' Choice' Event') where
  view : World' → World
  command : Cmd → Cmd'
  reply : Reply' → Reply
  happens : ∀ {w e w'}, S'.happen w e = some w' →
    view w' = view w ∨ ∃ e', S.happen (view w) e' = some (view w')
  executes : ∀ {w c choice r w'}, S'.execute w (command c) choice = some (r, w') →
    ∃ choice', S.execute (view w) c choice' = some (reply r, view w')

namespace Part
variable {S : System World Cmd Reply Choice Event} {S' : System World' Cmd' Reply' Choice' Event'}
  (part : Part S S')

/-- The program of the part as one of the whole. -/
def embed : Program Cmd Reply α → Program Cmd' Reply' α
  | .done a => .done a
  | .call c next => .call (part.command c) fun r => embed (next (part.reply r))

variable {part} {I : World → Prop} {J : World' → Prop} {Q : α → World → Prop}
  {p : Program Cmd Reply α} {w w' : World'}

theorem drifts (h : Drifts S' w w') : Drifts S (part.view w) (part.view w') := by
  induction h with
  | refl => exact .refl
  | tail _ hstep ih =>
    obtain ⟨e, he⟩ := hstep
    rcases part.happens he with hsame | ⟨e', he'⟩
    · rwa [hsame]
    · exact ih.tail ⟨e', he'⟩

/-- What holds of a program in its part holds in the whole, with a frame that neither the events of
the whole nor the commands of the part break. -/
theorem safe (part : Part S S') (hstable : Stable S' J)
    (hkeep : ∀ w c choice r w', J w → S'.execute w (part.command c) choice = some (r, w') → J w')
    (h : Safe S (fun _ _ _ => True) I Q p (part.view w)) (hJ : J w) :
    Safe S' (fun _ _ _ => True) (fun w => I (part.view w) ∧ J w)
      (fun a w => Q a (part.view w) ∧ J w) (part.embed p) w := by
  induction p generalizing w with
  | done a =>
    intro w' hd
    obtain ⟨hI, hQ⟩ := h _ (drifts hd)
    exact ⟨⟨hI, hstable.drifts hJ hd⟩, hQ, hstable.drifts hJ hd⟩
  | call c next ih =>
    intro w' hd
    obtain ⟨hI, hcall⟩ := h _ (drifts hd)
    have hJ' := hstable.drifts hJ hd
    refine ⟨⟨hI, hJ'⟩, fun choice r w'' _ hstep => ?_⟩
    obtain ⟨choice', hstep'⟩ := part.executes hstep
    exact ih (part.reply r) (hcall choice' _ _ trivial hstep') (hkeep _ _ _ _ _ hJ' hstep)

end Part

end CommandPart
