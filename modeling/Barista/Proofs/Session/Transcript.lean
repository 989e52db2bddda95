import Barista.Session
import Barista.Proofs.Script.Composition
import Barista.Proofs.Script.Separation

/-!
# What a session shows

In every state of a session the accepted text compiles, with the optimizer on or off, and all its
lines count as shown.  A chunk that is a program of its own adds lines behind those, so that what
was shown until then is always the whole script.  A chunk that continues the statement in front of
it may change a line that was shown, and then the session does not show the new one.
-/

namespace Barista

/-- A program that is accepted is written out, whatever the options. -/
theorem compile_eq_ok_iff {options : Options} {source script : String} :
    compile options source = .ok script ↔
      ∃ p, analyze source = .ok p ∧ Text.join (Script.generate (prepare options p).1) = script := by
  rw [compile, compileReporting, analyze]
  split
  · rename_i e log h
    simp [h]
  · rename_i p log h
    simp [h]

/-- Whether a text compiles does not depend on the options. -/
theorem exists_compile {options : Options} {source script : String}
    (h : compile options source = .ok script) (options' : Options) :
    ∃ script', compile options' source = .ok script' := by
  obtain ⟨p, hp, -⟩ := compile_eq_ok_iff.1 h
  exact ⟨_, compile_eq_ok_iff.2 ⟨p, hp, rfl⟩⟩

theorem compile_empty (options : Options) : compile options "" = .ok "" := by
  rcases options with ⟨_ | _⟩ <;> decide +kernel

namespace Session

/-! ## Steps of a session -/

theorem submit_of_error {s : Session} {chunk : String} {e : Diagnostic}
    (h : compile s.options (s.extended chunk) = .error e) : s.submit chunk = (.error e, s) := by
  rw [submit, h]

theorem submit_of_ok {s : Session} {chunk script : String}
    (h : compile s.options (s.extended chunk) = .ok script) :
    s.submit chunk = (.ok ((Text.lines script).drop s.emitted),
      ⟨s.extended chunk, s.options, (Text.lines script).length⟩) := by
  rw [submit, h]

/-- A chunk that is not accepted leaves the session as it is. -/
theorem submit_snd_of_error {s : Session} {chunk : String} {e : Diagnostic}
    (h : (s.submit chunk).1 = .error e) : (s.submit chunk).2 = s := by
  cases hcompile : compile s.options (s.extended chunk) with
  | error e => rw [submit_of_error hcompile]
  | ok script =>
      rw [submit_of_ok hcompile] at h
      cases h

inductive Action
  | submit (chunk : String)
  | toggle
  | reset
deriving DecidableEq, Repr

def act (s : Session) : Action → Session
  | .submit chunk => (s.submit chunk).2
  | .toggle => s.toggle.2
  | .reset => s.reset

def run (s : Session) (actions : List Action) : Session :=
  actions.foldl act s

/-- The accepted text compiles, and all its lines count as shown. -/
def Settled (s : Session) : Prop :=
  ∃ script, compile s.options s.source = .ok script ∧ s.emitted = (Text.lines script).length

theorem settled_new (options : Options) : (new options).Settled :=
  ⟨"", compile_empty options, rfl⟩

namespace Settled

variable {s : Session}

theorem submit (h : s.Settled) (chunk : String) : (s.submit chunk).2.Settled := by
  cases hcompile : compile s.options (s.extended chunk) with
  | error e =>
      rw [submit_of_error hcompile]
      exact h
  | ok script =>
      rw [submit_of_ok hcompile]
      exact ⟨script, hcompile, rfl⟩

theorem toggle_eq (h : s.Settled) :
    ∃ script, compile s.options.toggled s.source = .ok script ∧
      s.toggle = (.ok (), ⟨s.source, s.options.toggled, (Text.lines script).length⟩) := by
  obtain ⟨_, hcompile, -⟩ := h
  obtain ⟨script, hscript⟩ := exists_compile hcompile s.options.toggled
  refine ⟨script, hscript, ?_⟩
  simp only [toggle, hscript]

theorem act (h : s.Settled) (action : Action) : (s.act action).Settled := by
  cases action with
  | submit chunk => exact h.submit chunk
  | toggle =>
      obtain ⟨script, hscript, htoggle⟩ := h.toggle_eq
      rw [Session.act, htoggle]
      exact ⟨script, hscript, rfl⟩
  | reset => exact settled_new s.options

theorem run (h : s.Settled) (actions : List Action) : (s.run actions).Settled := by
  induction actions generalizing s with
  | nil => exact h
  | cons action actions ih => exact ih (h.act action)

end Settled

/-- Whatever a session is asked to do, its text compiles and all lines of it count as shown.  So the
optimizer can always be switched, and what is not accepted changes nothing. -/
theorem settled_of_run (options : Options) (actions : List Action) :
    let s := (new options).run actions
    (∃ script, compile s.options s.source = .ok script ∧
        s.emitted = (Text.lines script).length) ∧
      s.toggle.1 = .ok () ∧
      ∀ chunk e, (s.submit chunk).1 = .error e → (s.submit chunk).2 = s := by
  intro s
  have hsettled : s.Settled := (settled_new options).run actions
  obtain ⟨script, -, htoggle⟩ := hsettled.toggle_eq
  exact ⟨hsettled, by rw [htoggle], fun chunk e ↦ submit_snd_of_error⟩

/-! ## What is shown -/

/-- The lines shown for a chunk. -/
def answer (s : Session) (chunk : String) : List String :=
  match (s.submit chunk).1 with
  | .ok lines => lines
  | .error _ => []

/-- All lines shown while chunks are submitted one after the other. -/
def shown (s : Session) : List String → List String
  | [] => []
  | chunk :: rest => s.answer chunk ++ (s.submit chunk).2.shown rest

def submitAll (s : Session) (chunks : List String) : Session :=
  chunks.foldl (fun s chunk ↦ (s.submit chunk).2) s

/-- Every chunk that is accepted is a program of its own and continues no statement. -/
def Separate (s : Session) : List String → Prop
  | [] => True
  | chunk :: rest =>
    ((s.submit chunk).1.isOk = true → (Surface.parse chunk).isOk = true) ∧
      (s.submit chunk).2.Separate rest

instance decidableSeparate (s : Session) : (chunks : List String) → Decidable (s.Separate chunks)
  | [] => .isTrue trivial
  | chunk :: rest =>
    have := decidableSeparate (s.submit chunk).2 rest
    inferInstanceAs (Decidable ((_ → _) ∧ _))

/-- A program on the next line leaves the lines in front of it as they are. -/
theorem lines_prefix_of_append_newline {options : Options} {s₁ s₂ script script' : String}
    {t₂ : List Surface.Stmt} (h₁ : compile options s₁ = .ok script)
    (h₂ : Surface.parse s₂ = .ok t₂) (h : compile options (s₁ ++ "\n" ++ s₂) = .ok script') :
    Text.lines script <+: Text.lines script' := by
  obtain ⟨p, hp, rfl⟩ := compile_eq_ok_iff.1 h₁
  obtain ⟨q, hq, rfl⟩ := compile_eq_ok_iff.1 h
  obtain ⟨t₁, s, hparse₁, hblock₁, hentities₁⟩ := block_of_analyze hp
  obtain ⟨t, s', hparse, hblock, hentities⟩ := block_of_analyze hq
  cases (Surface.parse_append_newline hparse₁ h₂).symm.trans hparse
  obtain ⟨core, s₁, hfirst, hbelow⟩ := below_of_block_append hblock hentities
  -- the first program is the one that the beginning of the two becomes
  cases hfirst.symm.trans hblock₁
  rw [hentities₁] at hbelow
  have hprefix := generate_prepare_prefix hblock₁ hentities₁ hblock hentities hbelow options
  exact Text.lines_join_prefix (fun line ↦ Script.endsVisibly_of_mem_generate) hprefix

section Shows

variable {s : Session} {script : String}

/-- An accepted chunk that is a program of its own is answered with what the script gains by it. -/
theorem answer_of_separate {chunk : String} (hscript : compile s.options s.source = .ok script)
    (hemitted : s.emitted = (Text.lines script).length)
    (hown : (s.submit chunk).1.isOk = true → (Surface.parse chunk).isOk = true) :
    ∃ next, compile (s.submit chunk).2.options (s.submit chunk).2.source = .ok next ∧
      (s.submit chunk).2.emitted = (Text.lines next).length ∧
      Text.lines script ++ s.answer chunk = Text.lines next := by
  cases hcompile : compile s.options (s.extended chunk) with
  | error e =>
      rw [answer, submit_of_error hcompile]
      exact ⟨script, hscript, hemitted, List.append_nil _⟩
  | ok next =>
      rw [submit_of_ok hcompile] at hown
      have hprefix : Text.lines script <+: Text.lines next := by
        rw [extended] at hcompile
        split at hcompile
        · rename_i hempty
          rw [String.isEmpty_iff.1 hempty, compile_empty] at hscript
          cases hscript
          exact List.nil_prefix
        · cases hparse : Surface.parse chunk with
          | error e =>
              rw [hparse] at hown
              exact absurd (hown rfl) Bool.false_ne_true
          | ok t => exact lines_prefix_of_append_newline hscript hparse hcompile
      rw [answer, submit_of_ok hcompile, hemitted]
      exact ⟨next, hcompile, rfl, List.prefix_iff_eq_append.1 hprefix⟩

/-- What was shown, with what is shown for programs of their own, is all of the script. -/
theorem append_shown_eq_lines {chunks : List String}
    (hscript : compile s.options s.source = .ok script)
    (hemitted : s.emitted = (Text.lines script).length) (h : s.Separate chunks) :
    ∃ last, compile (s.submitAll chunks).options (s.submitAll chunks).source = .ok last ∧
      Text.lines script ++ s.shown chunks = Text.lines last := by
  induction chunks generalizing s script with
  | nil => exact ⟨script, hscript, List.append_nil _⟩
  | cons chunk rest ih =>
      obtain ⟨hown, hrest⟩ := h
      obtain ⟨next, hnext, hcount, hanswer⟩ := answer_of_separate hscript hemitted hown
      obtain ⟨last, hlast, hshown⟩ := ih hnext hcount hrest
      refine ⟨last, hlast, ?_⟩
      rw [shown, ← List.append_assoc, hanswer, hshown]

end Shows

/-- Where each accepted chunk is a program of its own, the lines shown are those of the script. -/
theorem shown_eq_lines (options : Options) {chunks : List String}
    (h : (new options).Separate chunks) :
    ∃ script, compile ((new options).submitAll chunks).options
        ((new options).submitAll chunks).source = .ok script ∧
      (new options).shown chunks = Text.lines script := by
  have hnew : compile (new options).options (new options).source = .ok "" := compile_empty options
  exact append_shown_eq_lines hnew rfl h

/-- A chunk that is not accepted and a name that is used before stand between two programs. -/
theorem shown_eq_lines_shadowed :
    let chunks := ["int x = 3\nprint(x)", "print(y)", "+", "for x in 2 \x7b print(x) \x7d"]
    (new .standard).Separate chunks ∧
      (new .standard).shown chunks = ["let x = 3;", "console.log(x);",
        "for (let x_2 = 0; x_2 < 2; x_2++) \x7b", "  console.log(x_2);", "\x7d"] ∧
      ∃ script, compile ((new .standard).submitAll chunks).options
          ((new .standard).submitAll chunks).source = .ok script ∧
        (new .standard).shown chunks = Text.lines script := by
  intro chunks
  have hseparate : (new .standard).Separate chunks := by decide +kernel
  exact ⟨hseparate, by decide +kernel, shown_eq_lines .standard hseparate⟩

/-- A chunk that continues the statement in front of it makes the line that was shown stale. -/
theorem shown_stale :
    let chunks := ["int x = 1", "+ 2"]
    (new .standard).shown chunks = ["let x = 1;"] ∧
      ((new .standard).submitAll chunks).source = "int x = 1\n+ 2" ∧
      (compile .standard "int x = 1\n+ 2").toOption.map Text.lines = some ["let x = 3;"] := by
  decide +kernel

end Session
end Barista
