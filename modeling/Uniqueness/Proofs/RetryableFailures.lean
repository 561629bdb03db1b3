import Uniqueness.Proofs.ProvidersAgree
import Uniqueness.Proofs.RequestCourses

namespace Uniqueness

open Calls (Request)
open Cluster (Network)

variable {σ : Type}

namespace Calls.Request

def kind : Request → String
  | .commit _ => "claim"
  | .consumer _ => "get"
  | .count => "size"

theorem read_eq_error {q : Request} {response : Response} {failure : Failure} (h : q.read response = .error failure) :
    failure = response.expected q.kind := by
  cases q with
  | commit c =>
    have hread : response.toVerdict = .error failure := map_eq_error_iff.mp h
    cases response <;> cases hread <;> rfl
  | consumer key =>
    have hread : response.toValue = .error failure := map_eq_error_iff.mp h
    cases response <;> cases hread <;> rfl
  | count =>
    have hread : response.toSize = .error failure := map_eq_error_iff.mp h
    cases response <;> cases hread <;> rfl

end Calls.Request

namespace Client

def serve (net : Network σ) (c : Client) (w : σ) : Request → Except Failure Calls.Answer
  | .commit claim => .verdict <$> (asProvider (c.commit net claim w)).1
  | .consumer key => .record <$> (asProvider (c.consumer net key w)).1
  | .count => .number <$> (asProvider (c.count net w)).1

theorem asProvider_answer {α β : Type} (f : Response → Except Failure α) (g : α → β) (r : Run σ) :
    g <$> (asProvider (answer f r)).1 = r.result.mapError Cluster.Fault.toFailure >>= fun response =>
      g <$> f response := by
  rw [asProvider, answer]
  cases r.result with
  | error fault => rfl
  | ok response =>
    rw [ok_bind, mapError_ok, ok_bind]
    cases f response <;> rfl

theorem serve_eq (net : Network σ) (c : Client) (w : σ) (q : Request) :
    c.serve net w q = (c.execute net q.command w).result.mapError Cluster.Fault.toFailure >>= q.read := by
  cases q with
  | commit claim => exact asProvider_answer Response.toVerdict Calls.Answer.verdict _
  | consumer key => exact asProvider_answer Response.toValue Calls.Answer.record _
  | count => exact asProvider_answer Response.toSize Calls.Answer.number _

namespace Outcome

def IsUnread (o : Outcome) : Prop :=
  ∃ text, o = .fail (.network ⟨.invalidArgument, text⟩)

def Classed : Outcome → Prop
  | done _ | redirect _ => True
  | backoff fault => fault.toFailure.isRetryable = true
  | fail fault => (fail fault).IsUnread ∨ fault.toFailure.isRetryable = false

theorem Classed.retryable_iff {o : Outcome} (ho : o.Classed) {n : Nat} {fault : Cluster.Fault}
    (h : o.answer n = .error fault) : fault.toFailure.isRetryable = true ↔ o.goesOn = true ∨ o.IsUnread := by
  cases o with
  | done response => cases h
  | redirect address =>
    cases h
    exact iff_of_true rfl (.inl rfl)
  | backoff fault =>
    cases h
    exact iff_of_true ho (.inl rfl)
  | fail fault =>
    cases h
    rcases ho with ⟨text, hunread⟩ | hfinal
    · cases hunread
      exact iff_of_true rfl (.inr ⟨text, rfl⟩)
    · refine iff_of_false (by rw [hfinal]; exact Bool.false_ne_true) ?_
      rintro (hgoes | ⟨text, hunread⟩)
      · cases hgoes
      · cases hunread
        cases hfinal

end Outcome

theorem Reading.classed {target : String} {reply : Except Cluster.Status Cluster.ExecuteReply} {o : Outcome}
    (h : Reading target reply o) : o.Classed := by
  cases h with
  | answered => trivial
  | hinted => trivial
  | failed => rfl
  | refused => rfl
  | unexplained => rfl
  | unreadable => exact .inr rfl
  | rejected h => exact .inl ⟨_, congrArg (fun code => Outcome.fail (.network ⟨code, _⟩)) h⟩

theorem Course.classed {net : Network σ} {command : Command} {c : Client} {w : σ} (s : Course net command c w)
    (k : Nat) : (s.outcome k).Classed := by
  obtain ⟨fault, haddress, houtcome, -⟩ | ⟨-, reply, -, hreading⟩ := s.outcome_cases k
  · obtain ⟨invalid, -, rfl⟩ := mapError_eq_error_iff.mp haddress
    rw [houtcome]
    exact .inr rfl
  · exact hreading.classed

section

variable {net : Network σ} {c : Client} {w : σ} {q : Request}

theorem exists_serve_iff {o : Outcome} {n : Nat} (h : (c.execute net q.command w).result = o.answer n) :
    (∃ answer, c.serve net w q = .ok answer) ↔
      ∃ response answer, o = .done response ∧ q.read response = .ok answer := by
  rw [serve_eq, h]
  constructor
  · rintro ⟨answer, hserve⟩
    obtain ⟨response, hresponse, hread⟩ := bind_eq_ok_iff.mp hserve
    exact ⟨response, answer, Outcome.answer_eq_ok_iff.mp (mapError_eq_ok_iff.mp hresponse), hread⟩
  · rintro ⟨response, answer, rfl, hread⟩
    exact ⟨answer, hread⟩

theorem failure_of_answer {o : Outcome} {n : Nat} (h : (c.execute net q.command w).result = o.answer n)
    {failure : Failure} (hserve : c.serve net w q = .error failure) :
    (∃ response, o = .done response ∧ failure = response.expected q.kind) ∨
      ∃ fault, o.answer n = .error fault ∧ failure = fault.toFailure := by
  rw [serve_eq, h] at hserve
  cases hanswer : o.answer n with
  | ok response =>
    rw [hanswer, mapError_ok, ok_bind] at hserve
    exact .inl ⟨response, Outcome.answer_eq_ok_iff.mp hanswer, Calls.Request.read_eq_error hserve⟩
  | error fault =>
    rw [hanswer, mapError_error, error_bind] at hserve
    exact .inr ⟨fault, rfl, (Except.error.inj hserve).symm⟩

theorem retryable_iff {o : Outcome} (ho : o.Classed) {n : Nat} (h : (c.execute net q.command w).result = o.answer n)
    {failure : Failure} (hserve : c.serve net w q = .error failure) :
    failure.isRetryable = true ↔ o.goesOn = true ∨ o.IsUnread := by
  rcases failure_of_answer h hserve with ⟨response, rfl, rfl⟩ | ⟨fault, hanswer, rfl⟩
  · refine iff_of_false Bool.false_ne_true ?_
    rintro (hgoes | ⟨text, hunread⟩)
    · cases hgoes
    · cases hunread
  · exact ho.retryable_iff hanswer

theorem not_retryable_iff {o : Outcome} (ho : o.Classed) {n : Nat}
    (h : (c.execute net q.command w).result = o.answer n) {failure : Failure}
    (hserve : c.serve net w q = .error failure) :
    failure.isRetryable = false ↔ (∃ fault, o = .fail fault ∧ ¬o.IsUnread) ∨
      ∃ response, o = .done response ∧ failure = response.expected q.kind := by
  rw [← Bool.not_eq_true, retryable_iff ho h hserve, not_or]
  constructor
  · rintro ⟨hends, hread⟩
    cases o with
    | redirect address => exact absurd rfl hends
    | backoff fault => exact absurd rfl hends
    | fail fault => exact .inl ⟨fault, rfl, hread⟩
    | done response =>
      rcases failure_of_answer h hserve with ⟨_, hdone, hfailure⟩ | ⟨_, hanswer, -⟩
      · exact .inr ⟨_, hdone, hfailure⟩
      · cases hanswer
  · rintro (⟨fault, rfl, hread⟩ | ⟨response, rfl, -⟩)
    · exact ⟨Bool.false_ne_true, hread⟩
    · exact ⟨Bool.false_ne_true, fun ⟨_, hunread⟩ => by cases hunread⟩

end

def Outcome.Agrees (o : Outcome) (failure : Failure) : Prop :=
  failure.isRetryable = true ↔ o.goesOn = true

/-- A request that fails may be repeated if no more attempts were allowed, and not if an attempt failed for good or
had an answer of another kind. Only of a command that the node cannot read is a caller told to try again where the
client gives up. -/
theorem retryable_iff_goesOn_or_unread (net : Network σ) (c : Client) (w : σ) (q : Request) :
    ∃ (s : Course net q.command c w) (k : Nat), s.Ends (max 1 c.policy.maxAttempts.toNat) k ∧
      ((∃ answer, c.serve net w q = .ok answer) ↔
        ∃ response answer, s.outcome k = .done response ∧ q.read response = .ok answer) ∧
      ∀ failure, c.serve net w q = .error failure →
        (failure.isRetryable = true ↔ (s.outcome k).goesOn = true ∨ (s.outcome k).IsUnread) ∧
        (failure.isRetryable = false ↔ (∃ fault, s.outcome k = .fail fault ∧ ¬(s.outcome k).IsUnread) ∨
          ∃ response, s.outcome k = .done response ∧ failure = response.expected q.kind) ∧
        ((s.outcome k).Agrees failure ↔ ¬(s.outcome k).IsUnread) := by
  obtain ⟨s, k, hends, hrun⟩ := c.exists_run net q.command w
  have hresult : (c.execute net q.command w).result = (s.outcome k).answer (k + 1) := by rw [hrun]; rfl
  have hclassed := s.classed k
  refine ⟨s, k, hends, exists_serve_iff hresult, fun failure hserve => ?_⟩
  have hretryable := retryable_iff hclassed hresult hserve
  refine ⟨hretryable, not_retryable_iff hclassed hresult hserve, ?_⟩
  rw [Outcome.Agrees, hretryable]
  constructor
  · intro hagrees hunread
    obtain ⟨text, houtcome⟩ := id hunread
    have hgoes := hagrees.mp (.inr hunread)
    rw [houtcome] at hgoes
    cases hgoes
  · exact or_iff_left

def invalid : Cluster.Status :=
  ⟨.invalidArgument, "Invalid command: expected value at line 1 column 1"⟩

def unreading : Network Unit :=
  { Network.isolated Unit with execute _ _ w := (.error invalid, w) }

def patient : Client :=
  ⟨"a:1", ["b:1"], 0, none, .standard⟩

theorem unread_command_is_retryable : ∃ s : Course unreading .size patient (), s.Ends 8 0 ∧
    s.outcome 0 = .fail (.network invalid) ∧ (patient.execute unreading .size ()).targets = ["a:1"] ∧
    patient.serve unreading () .count = .error (.unavailable ("Network error: " ++ invalid.text)) ∧
    ¬(s.outcome 0).Agrees (.unavailable ("Network error: " ++ invalid.text)) := by
  have hattempt : attempt unreading .size "a:1" () = (.fail (.network invalid), ()) := by
    have haddress : checkAddress "a:1" = .ok () := by decide +kernel
    rw [attempt, haddress]
    rfl
  obtain ⟨s, k, hends, hrun⟩ := patient.exists_run unreading .size ()
  have hfirst : s.outcome 0 = .fail (.network invalid) := by
    have hstart := s.attempted 0
    rw [s.starts.1, s.starts.2.2] at hstart
    exact (congrArg Prod.fst hstart).symm.trans (congrArg Prod.fst hattempt)
  obtain rfl : 0 = k :=
    hends.eq (by decide) (fun i hi => absurd hi i.not_lt_zero) (by rw [hfirst]; rfl)
  refine ⟨s, hends, hfirst, ?_, ?_, ?_⟩
  · rw [hrun]
    exact congrArg (fun target => [target]) s.starts.1
  · have hresult : (patient.execute unreading .size ()).result = .error (.network invalid) := by
      rw [hrun]
      exact congrArg (Outcome.answer 1) hfirst
    rw [serve_eq, Calls.Request.command, hresult]
    rfl
  · rw [hfirst]
    intro hagrees
    cases hagrees.mp rfl

end Client

end Uniqueness
