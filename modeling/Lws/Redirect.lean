import Lws.ChunkResult
/-!
# Redirect — which redirect a sequence of `lws.redirect` calls leaves

A call copies its args, if it has some, into one field of the request context and then its path into another; each copy can
fail for lack of memory, and the call raises an error then, which Lua may catch.  The redirect is that of the last call that
succeeds where no later call has failed in a copy, and where that call has written the args or none were stored before.
-/
namespace Lws

/-- A call of `lws.redirect`, with the request context it is made in and whether its strings can be copied. -/
structure RedirectCall where
  lctx : LuaCtx
  path : Key
  args : Option Key := none
  memArgs : Bool := true
  mem : Bool := true
deriving DecidableEq

def RedirectCall.apply (ctx : RequestCtx) (c : RedirectCall) : RequestCtx :=
  (lwsRedirect c.path c.args c.memArgs c.mem c.lctx ctx).2.1

def runRedirects (calls : List RedirectCall) (ctx : RequestCtx) : RequestCtx := calls.foldl RedirectCall.apply ctx

def finalCtx (calls : List RedirectCall) (rc status : Int) : RequestCtx where
  rc := rc
  status := status
  redirect := (runRedirects calls {}).redirect
  redirectArgs := (runRedirects calls {}).redirectArgs

/-- The bytes of a string of the request context; none is a NULL string read. -/
def NgxStr.read (s : NgxStr) : Option Key := if s.len = 0 then some [] else s.data.map fun data => data.take s.len

namespace RedirectCall

variable (c : RedirectCall)

/-- The call passes the checks of `lws_redirect`. -/
def accepted : Bool := (c.lctx.chunk = .pre || c.lctx.chunk = .main) && !c.lctx.sealed && redirectValid c.path

def named : Bool := c.path.head? = some 0x40

def givenArgs : Option Key := if c.named then none else c.args

def losesArgs : Bool := c.accepted && c.givenArgs.isSome && !c.memArgs

def losesPath : Bool := c.accepted && !c.losesArgs && !c.mem

def succeeds : Bool := c.accepted && !c.losesArgs && c.mem

def stored : Option Key := if c.accepted && c.memArgs then c.givenArgs else none

/-- A response redirects as the call says, with empty args where it gave none. -/
def Answers (r : Response) : Prop :=
  if c.named then r = .namedLocation c.path.tail
  else ∃ args, r = .internalRedirect c.path args ∧ args.read = some (c.args.getD [])

end RedirectCall

def lastRedirect (calls : List RedirectCall) : Option RedirectCall := (calls.filter RedirectCall.succeeds).getLast?

/-- A response redirects as the last call that succeeded says, and does not redirect without one. -/
def Redirected (calls : List RedirectCall) (r : Response) : Prop :=
  match lastRedirect calls with
  | some c => c.Answers r
  | none => r ≠ .fault ∧ (∀ name, r ≠ .namedLocation name) ∧ ∀ path args, r ≠ .internalRedirect path args

def storedArgs (calls : List RedirectCall) : Key := (calls.filterMap RedirectCall.stored).getLast?.getD []

/-- Nothing interferes with the last call that succeeds: no later call fails in a copy that matters, and if it gives a path
without args, none are stored before it. -/
def Undisturbed (calls : List RedirectCall) : Prop :=
  ∀ before c after, calls = before ++ c :: after → c.succeeds = true → after.any RedirectCall.succeeds = false →
    after.any RedirectCall.losesPath = false ∧ (c.named = false →
      if c.args = none then storedArgs before = [] else c.args = some [] ∨ after.any RedirectCall.losesArgs = false)

/-! ## One call -/

section
variable {ctx : RequestCtx} {c : RedirectCall}

theorem storeRedirectArgs_eq (c : RedirectCall) (dst : NgxStr) : storeRedirectArgs c.path c.args c.memArgs dst =
    match c.givenArgs with
    | some args => lwsStrdup args c.memArgs dst
    | none => (dst, .ok) := by
  unfold storeRedirectArgs RedirectCall.givenArgs RedirectCall.named
  cases c.args with
  | none => simp
  | some args => by_cases hn : c.path.head? = some 0x40 <;> simp [hn]

/-- **What a call does**: to the path, to the args, and to nothing else. -/
theorem RedirectCall.apply_eq (ctx : RequestCtx) (c : RedirectCall) : c.apply ctx =
    { ctx with
      redirect := if c.succeeds then ⟨some c.path, c.path.length⟩
        else if c.losesPath then { ctx.redirect with data := none } else ctx.redirect
      redirectArgs := if c.losesArgs then { ctx.redirectArgs with data := none }
        else match c.stored with
          | some args => ⟨some args, args.length⟩
          | none => ctx.redirectArgs } := by
  by_cases hacc : c.accepted = true
  · have hconds : (c.lctx.chunk = .pre ∨ c.lctx.chunk = .main) ∧ c.lctx.sealed = false ∧ redirectValid c.path = true := by
      simpa [RedirectCall.accepted, and_assoc] using hacc
    unfold RedirectCall.apply lwsRedirect
    rw [if_neg (by tauto), if_neg (by simp [hconds.2.1]), if_neg (by simp [hconds.2.2]), storeRedirectArgs_eq]
    cases hargs : c.givenArgs with
    | none =>
      cases hmem : c.mem <;>
        simp [RedirectCall.succeeds, RedirectCall.losesPath, RedirectCall.losesArgs, RedirectCall.stored, hacc, hargs, hmem,
          lwsStrdup]
    | some args =>
      cases hmemArgs : c.memArgs with
      | false =>
        simp [RedirectCall.succeeds, RedirectCall.losesPath, RedirectCall.losesArgs, hacc, hargs, hmemArgs, lwsStrdup]
      | true =>
        cases hmem : c.mem <;>
          simp [RedirectCall.succeeds, RedirectCall.losesPath, RedirectCall.losesArgs, RedirectCall.stored, hacc, hargs, hmem,
            hmemArgs, lwsStrdup]
  · have hrefused : ¬((c.lctx.chunk = .pre ∨ c.lctx.chunk = .main) ∧ c.lctx.sealed = false ∧ redirectValid c.path = true) := by
      simpa [RedirectCall.accepted, and_assoc] using hacc
    unfold RedirectCall.apply
    rw [lwsRedirect_refused ctx c.args c.memArgs c.mem hrefused]
    simp [RedirectCall.succeeds, RedirectCall.losesPath, RedirectCall.losesArgs, RedirectCall.stored, hacc]

theorem RedirectCall.apply_succeeds (h : c.succeeds = true) : (c.apply ctx).redirect = ⟨some c.path, c.path.length⟩ := by
  rw [RedirectCall.apply_eq]
  exact if_pos h

theorem RedirectCall.succeeds_args (h : c.succeeds = true) : c.losesArgs = false ∧ c.stored = c.givenArgs := by
  simp only [RedirectCall.succeeds, Bool.and_eq_true, Bool.not_eq_true'] at h
  obtain ⟨⟨hacc, hloses⟩, -⟩ := h
  refine ⟨hloses, ?_⟩
  cases hargs : c.givenArgs with
  | none => simp [RedirectCall.stored, hargs]
  | some args =>
    have hmem : c.memArgs = true := by simpa [RedirectCall.losesArgs, hacc, hargs] using hloses
    simp [RedirectCall.stored, hargs, hacc, hmem]

theorem RedirectCall.stored_eq_none (h : c.succeeds = false) (hpath : c.losesPath = false) : c.stored = none := by
  cases hacc : c.accepted with
  | false => simp [RedirectCall.stored, hacc]
  | true =>
    have hloses : c.losesArgs = true := by
      cases hmem : c.mem with
      | true => simpa [RedirectCall.succeeds, hacc, hmem] using h
      | false => simpa [RedirectCall.losesPath, hacc, hmem] using hpath
    simp only [RedirectCall.losesArgs, hacc, Bool.true_and, Bool.and_eq_true, Bool.not_eq_true'] at hloses
    simp [RedirectCall.stored, hloses.2]

theorem RedirectCall.succeeds_path (h : c.succeeds = true) : ∃ b name, c.path = b :: name := by
  simp only [RedirectCall.succeeds, RedirectCall.accepted, Bool.and_eq_true] at h
  have hvalid : redirectValid c.path = true := h.1.1.2
  cases hp : c.path with
  | nil => rw [hp] at hvalid; exact absurd hvalid (by decide)
  | cons b name => exact ⟨b, name, rfl⟩

end

/-! ## A sequence of calls -/

section
variable {calls before after : List RedirectCall} {c : RedirectCall} (ctx : RequestCtx)

theorem runRedirects_append (calls calls' : List RedirectCall) :
    runRedirects (calls ++ calls') ctx = runRedirects calls' (runRedirects calls ctx) := List.foldl_append

theorem runRedirects_cons (c : RedirectCall) (calls : List RedirectCall) :
    runRedirects (c :: calls) ctx = runRedirects calls (c.apply ctx) := rfl

theorem runRedirects_fields : ∀ (calls : List RedirectCall) {ctx ctx' : RequestCtx}, ctx.redirect = ctx'.redirect →
    ctx.redirectArgs = ctx'.redirectArgs → (runRedirects calls ctx).redirect = (runRedirects calls ctx').redirect ∧
      (runRedirects calls ctx).redirectArgs = (runRedirects calls ctx').redirectArgs ∧
      (runRedirects calls ctx).status = ctx.status
  | [], _, _, h, h' => ⟨h, h', rfl⟩
  | c :: calls, ctx, ctx', h, h' => by
    have hone : (c.apply ctx).redirect = (c.apply ctx').redirect ∧ (c.apply ctx).redirectArgs = (c.apply ctx').redirectArgs ∧
        (c.apply ctx).status = ctx.status := by
      rw [RedirectCall.apply_eq, RedirectCall.apply_eq, h, h']
      exact ⟨rfl, rfl, rfl⟩
    obtain ⟨hredirect, hargs, hstatus⟩ := runRedirects_fields calls hone.1 hone.2.1
    exact ⟨hredirect, hargs, hstatus.trans hone.2.2⟩

/-- **Calls that do not succeed** leave the path, or none of it. -/
theorem runRedirects_redirect : ∀ {after : List RedirectCall} (ctx : RequestCtx), after.any RedirectCall.succeeds = false →
    (runRedirects after ctx).redirect =
      if after.any RedirectCall.losesPath then { ctx.redirect with data := none } else ctx.redirect
  | [], _, _ => rfl
  | d :: after, ctx, h => by
    simp only [List.any_cons, Bool.or_eq_false_iff] at h
    rw [runRedirects_cons, runRedirects_redirect (d.apply ctx) h.2, RedirectCall.apply_eq, List.any_cons]
    dsimp only
    rw [h.1, if_neg Bool.false_ne_true]
    cases d.losesPath <;> cases after.any RedirectCall.losesPath <;> rfl

theorem runRedirects_redirectArgs : ∀ {after : List RedirectCall} (ctx : RequestCtx),
    after.any RedirectCall.succeeds = false → after.any RedirectCall.losesPath = false →
    (runRedirects after ctx).redirectArgs =
      if after.any RedirectCall.losesArgs then { ctx.redirectArgs with data := none } else ctx.redirectArgs
  | [], _, _, _ => rfl
  | d :: after, ctx, h, hpath => by
    simp only [List.any_cons, Bool.or_eq_false_iff] at h hpath
    rw [runRedirects_cons, runRedirects_redirectArgs (d.apply ctx) h.2 hpath.2, RedirectCall.apply_eq, List.any_cons]
    dsimp only
    rw [RedirectCall.stored_eq_none h.1 hpath.1]
    cases d.losesArgs <;> cases after.any RedirectCall.losesArgs <;> rfl

theorem runRedirects_storedArgs (calls : List RedirectCall) : (runRedirects calls {}).redirectArgs.len = (storedArgs calls).length ∧
    ∀ data, (runRedirects calls {}).redirectArgs.data = some data → data = storedArgs calls := by
  induction calls using List.reverseRecOn with
  | nil => exact ⟨rfl, fun _ h => nomatch h⟩
  | append_singleton calls d ih =>
    obtain ⟨hlen, hdata⟩ := ih
    rw [runRedirects_append, runRedirects_cons, runRedirects, List.foldl_nil, RedirectCall.apply_eq]
    rw [storedArgs, List.filterMap_append, List.filterMap_cons, List.filterMap_nil]
    dsimp only
    by_cases hloses : d.losesArgs = true
    · have hnone : d.stored = none := by
        simp only [RedirectCall.losesArgs, Bool.and_eq_true, Bool.not_eq_true'] at hloses
        simp [RedirectCall.stored, hloses.2]
      rw [if_pos hloses, hnone]
      dsimp only
      rw [List.append_nil]
      exact ⟨hlen, fun _ h => nomatch h⟩
    · rw [if_neg hloses]
      cases d.stored with
      | none =>
        dsimp only
        rw [List.append_nil]
        exact ⟨hlen, hdata⟩
      | some args =>
        dsimp only
        rw [List.getLast?_append_cons, List.getLast?_singleton, Option.getD_some]
        exact ⟨rfl, fun _ h => (Option.some.inj h).symm⟩

theorem runRedirects_none (h : calls.any RedirectCall.succeeds = false) : (runRedirects calls {}).redirect.len = 0 := by
  rw [runRedirects_redirect {} h]
  split <;> rfl

theorem lastRedirect_split (calls : List RedirectCall) :
    (lastRedirect calls = none ∧ calls.any RedirectCall.succeeds = false) ∨
      ∃ before c after, calls = before ++ c :: after ∧ c.succeeds = true ∧ after.any RedirectCall.succeeds = false ∧
        lastRedirect calls = some c := by
  induction calls using List.reverseRecOn with
  | nil => exact .inl ⟨rfl, rfl⟩
  | append_singleton calls d ih =>
    unfold lastRedirect at ih ⊢
    rw [List.filter_append, List.any_append]
    cases hd : d.succeeds with
    | true =>
      refine .inr ⟨calls, d, [], rfl, hd, rfl, ?_⟩
      rw [List.filter_cons_of_pos hd, List.filter_nil, List.getLast?_append_cons, List.getLast?_singleton]
    | false =>
      rw [List.filter_cons_of_neg (by simp [hd]), List.filter_nil, List.append_nil, List.any_cons, List.any_nil, hd, Bool.or_false,
        Bool.or_false]
      rcases ih with ih | ⟨before, c, after, rfl, hc, hafter, hlast⟩
      · exact .inl ih
      · refine .inr ⟨before, c, after ++ [d], ?_, hc, ?_, hlast⟩
        · rw [List.append_assoc, List.cons_append]
        · simp [hafter, hd]

theorem lastRedirect_of_split (before : List RedirectCall) (hc : c.succeeds = true)
    (hafter : after.any RedirectCall.succeeds = false) : lastRedirect (before ++ c :: after) = some c := by
  have hnil : after.filter RedirectCall.succeeds = [] := by
    rw [List.filter_eq_nil_iff]
    exact List.any_eq_false.1 hafter
  rw [lastRedirect, List.filter_append, List.filter_cons_of_pos hc, hnil, List.getLast?_append_cons, List.getLast?_singleton]

end

/-! ## The redirect that is left -/

section
variable {before after : List RedirectCall} {c : RedirectCall} {ctx : RequestCtx}

theorem respond_redirect (headers : Bool) {b : UInt8} {name : Key} (hrc : 0 ≤ ctx.rc)
    (hpath : ctx.redirect = ⟨some (b :: name), (b :: name).length⟩) : respond headers ctx =
      if b ≠ 0x40 then .internalRedirect (b :: name) ctx.redirectArgs else .namedLocation name := by
  rw [respond, if_neg (Int.not_lt.2 hrc), hpath]
  exact if_pos (Nat.succ_ne_zero _)

theorem respond_lost (headers : Bool) (hrc : 0 ≤ ctx.rc) (hlen : ctx.redirect.len ≠ 0) (hdata : ctx.redirect.data = none) :
    respond headers ctx = .fault := by
  rw [respond, if_neg (Int.not_lt.2 hrc), if_pos hlen, hdata]

theorem read_given (args : Key) (lost : Bool) :
    (if lost then { (⟨some args, args.length⟩ : NgxStr) with data := none } else ⟨some args, args.length⟩).read = some args ↔
      args = [] ∨ lost = false := by
  unfold NgxStr.read
  cases args with
  | nil => cases lost <;> simp
  | cons b args => cases lost <;> simp

theorem read_stored {s : NgxStr} {stored : Key} (lost : Bool) (hlen : s.len = stored.length)
    (hdata : ∀ data, s.data = some data → data = stored) :
    (if lost then { s with data := none } else s).read = some [] ↔ stored = [] := by
  obtain ⟨data, len⟩ := s
  obtain rfl : len = stored.length := hlen
  unfold NgxStr.read
  cases stored with
  | nil => cases lost <;> simp
  | cons b stored =>
    cases lost with
    | true => simp
    | false =>
      cases data with
      | none => simp
      | some data =>
        obtain rfl : data = b :: stored := hdata data rfl
        simp

theorem finalCtx_redirectArgs (before : List RedirectCall) (hc : c.succeeds = true)
    (hafter : after.any RedirectCall.succeeds = false) (hpath : after.any RedirectCall.losesPath = false) (rc status : Int) :
    (finalCtx (before ++ c :: after) rc status).redirectArgs =
      let args := match c.givenArgs with
        | some args => ⟨some args, args.length⟩
        | none => (runRedirects before {}).redirectArgs
      if after.any RedirectCall.losesArgs then { args with data := none } else args := by
  obtain ⟨hloses, hstored⟩ := RedirectCall.succeeds_args hc
  have hargs : (c.apply (runRedirects before {})).redirectArgs = match c.givenArgs with
      | some args => ⟨some args, args.length⟩
      | none => (runRedirects before {}).redirectArgs := by
    rw [RedirectCall.apply_eq]
    dsimp only
    rw [hloses, if_neg Bool.false_ne_true, hstored]
  rw [finalCtx, runRedirects_append, runRedirects_cons, runRedirects_redirectArgs _ hafter hpath, hargs]

/-- **The redirect after the last call that succeeds**, and the calls around it. -/
theorem answers_iff (headers : Bool) (before : List RedirectCall) (hc : c.succeeds = true)
    (hafter : after.any RedirectCall.succeeds = false) {rc : Int} (hrc : 0 ≤ rc) (status : Int) :
    c.Answers (respond headers (finalCtx (before ++ c :: after) rc status)) ↔
      after.any RedirectCall.losesPath = false ∧ (c.named = false →
        if c.args = none then storedArgs before = [] else c.args = some [] ∨ after.any RedirectCall.losesArgs = false) := by
  obtain ⟨b, name, hpath⟩ := RedirectCall.succeeds_path hc
  have hnamed : c.named = decide (b = 0x40) := by simp [RedirectCall.named, hpath]
  have hredirect : (finalCtx (before ++ c :: after) rc status).redirect =
      if after.any RedirectCall.losesPath then ⟨none, (b :: name).length⟩ else ⟨some (b :: name), (b :: name).length⟩ := by
    rw [finalCtx, runRedirects_append, runRedirects_cons, runRedirects_redirect _ hafter, RedirectCall.apply_succeeds hc, hpath]
  unfold RedirectCall.Answers
  cases hlost : after.any RedirectCall.losesPath with
  | true =>
    rw [hlost, if_pos rfl] at hredirect
    rw [respond_lost headers hrc (by rw [hredirect]; exact Nat.succ_ne_zero _) (by rw [hredirect])]
    split <;> simp
  | false =>
    rw [hlost, if_neg Bool.false_ne_true] at hredirect
    rw [respond_redirect headers hrc hredirect, hnamed, hpath]
    by_cases hb : b = 0x40
    · rw [decide_eq_true hb, if_pos rfl, if_neg (not_not.2 hb)]
      simp
    · have hgiven : c.givenArgs = c.args := by simp [RedirectCall.givenArgs, hnamed, hb]
      rw [decide_eq_false hb, if_neg Bool.false_ne_true, if_pos hb, finalCtx_redirectArgs before hc hafter hlost, hgiven]
      simp only [Response.internalRedirect.injEq, true_and, exists_eq_left', forall_const]
      cases c.args with
      | none =>
        obtain ⟨hlen, hdata⟩ := runRedirects_storedArgs before
        exact read_stored _ hlen hdata
      | some args =>
        rw [if_neg (Option.some_ne_none args), Option.getD_some, Option.some.injEq]
        exact read_given args _

end

theorem respond_unredirected (headers : Bool) {ctx : RequestCtx} (h : ctx.redirect.len = 0) : respond headers ctx ≠ .fault ∧
    (∀ name, respond headers ctx ≠ .namedLocation name) ∧ ∀ path args, respond headers ctx ≠ .internalRedirect path args := by
  unfold respond
  split
  · simp
  · rw [if_neg (not_not.2 h)]
    split
    · simp
    · split <;> simp

/-- **The redirect is that of the last call that succeeds**, where nothing interferes with it. -/
theorem Undisturbed.redirected {calls : List RedirectCall} (h : Undisturbed calls) (headers : Bool) {rc : Int} (hrc : 0 ≤ rc)
    (status : Int) : Redirected calls (respond headers (finalCtx calls rc status)) := by
  rw [Redirected]
  rcases lastRedirect_split calls with ⟨hnone, hany⟩ | ⟨before, c, after, rfl, hc, hafter, hlast⟩
  · rw [hnone]
    exact respond_unredirected headers (runRedirects_none hany)
  · rw [hlast]
    exact (answers_iff headers before hc hafter hrc status).2 (h before c after rfl hc hafter)

/-! ## The calls of a request -/

def ChunkCall.redirectCall (chunk : Chunk) : ChunkCall → Option RedirectCall
  | .redirect path args memArgs mem => some ⟨{ chunk := chunk }, path, args, memArgs, mem⟩
  | _ => none

def redirectCalls (beh : Chunk → Behaviour) (called : List (Chunk × Bool)) : List RedirectCall :=
  called.flatMap fun c => (beh c.1).calls.filterMap (ChunkCall.redirectCall c.1)

/-- A part of a run makes the redirect calls of the chunks it calls. -/
structure Redirects (beh : Chunk → Behaviour) (x y : Run) (called : List (Chunk × Bool)) : Prop where
  log : y.log = x.log ++ called
  unsealed : y.lctx.sealed = false
  ctx : y.ctx = runRedirects (redirectCalls beh called) x.ctx

section
variable {beh : Chunk → Behaviour} {x y z : Run} {called called' : List (Chunk × Bool)}

theorem Redirects.refl (h : x.lctx.sealed = false) : Redirects beh x x [] := ⟨(List.append_nil _).symm, h, rfl⟩

theorem Redirects.trans (h : Redirects beh x y called) (h' : Redirects beh y z called') :
    Redirects beh x z (called ++ called') where
  log := by rw [h'.log, h.log, List.append_assoc]
  unsealed := h'.unsealed
  ctx := by rw [h'.ctx, h.ctx, redirectCalls, redirectCalls, redirectCalls, List.flatMap_append, runRedirects_append]

theorem lwsRedirect_ctx (lctx : LuaCtx) (hsealed : lctx.sealed = false) (path : Key) (args : Option Key) (memArgs mem : Bool)
    (ctx : RequestCtx) :
    (lwsRedirect path args memArgs mem lctx ctx).2.1 = RedirectCall.apply ctx ⟨{ chunk := lctx.chunk }, path, args, memArgs, mem⟩ ∧
      (lwsRedirect path args memArgs mem lctx ctx).1.chunk = lctx.chunk ∧
      (lwsRedirect path args memArgs mem lctx ctx).1.sealed = false := by
  unfold RedirectCall.apply lwsRedirect
  rw [hsealed]
  split
  · exact ⟨rfl, rfl, hsealed⟩
  · rw [if_neg Bool.false_ne_true, if_neg Bool.false_ne_true]
    split
    · exact ⟨rfl, rfl, hsealed⟩
    · dsimp only
      split
      · exact ⟨rfl, rfl, hsealed⟩
      · split
        · exact ⟨rfl, rfl, hsealed⟩
        · dsimp only
          split
          · exact ⟨rfl, rfl, rfl⟩
          · exact ⟨rfl, rfl, hsealed⟩

theorem foldl_call_redirects : ∀ (calls : List ChunkCall) (x : Run), x.lctx.sealed = false →
    (calls.foldl Run.call x).ctx = runRedirects (calls.filterMap (ChunkCall.redirectCall x.lctx.chunk)) x.ctx ∧
      (calls.foldl Run.call x).lctx.sealed = false
  | [], x, h => ⟨rfl, h⟩
  | c :: calls, x, h => by
    have hone : (x.call c).ctx = runRedirects ([c].filterMap (ChunkCall.redirectCall x.lctx.chunk)) x.ctx ∧
        (x.call c).lctx.sealed = false ∧ (x.call c).lctx.chunk = x.lctx.chunk := by
      cases c with
      | setclose => exact ⟨rfl, h, rfl⟩
      | setcomplete =>
        refine ⟨rfl, ?_⟩
        unfold Run.call lwsSetcomplete
        dsimp only
        split <;> exact ⟨h, rfl⟩
      | redirect path args memArgs mem =>
        obtain ⟨hctx, hchunk, hsealed⟩ := lwsRedirect_ctx x.lctx h path args memArgs mem x.ctx
        exact ⟨hctx, hsealed, hchunk⟩
    obtain ⟨hctx, hsealed⟩ := foldl_call_redirects calls (x.call c) hone.2.1
    rw [List.foldl_cons]
    refine ⟨?_, hsealed⟩
    rw [hctx, hone.2.2, hone.1, ← runRedirects_append, ← List.filterMap_append, List.singleton_append]

theorem lwsCall_redirects (beh : Chunk → Behaviour) (chunk : Chunk) (h : x.lctx.sealed = false) :
    ∃ called, Redirects beh x (lwsCall chunk (beh chunk) x).1 called := by
  obtain ⟨ok, hlog⟩ := lwsCall_log chunk (beh chunk) x
  obtain ⟨hctx, hsealed⟩ := foldl_call_redirects (beh chunk).calls { x with lctx := { x.lctx with chunk := chunk } } h
  have hcalls : redirectCalls beh [(chunk, ok)] = (beh chunk).calls.filterMap (ChunkCall.redirectCall chunk) :=
    List.append_nil _
  refine ⟨[(chunk, ok)], hlog, ?_, ?_⟩
  · unfold lwsCall
    dsimp only
    split
    · exact hsealed
    · split
      · exact hsealed
      · exact hsealed
  · rw [hcalls]
    unfold lwsCall
    dsimp only
    split
    · exact hctx
    · split
      · exact hctx
      · exact hctx

/-- **A run that returns** makes the redirect calls of the chunks in its log. -/
theorem lwsRun_redirects {conf : ChunkConf} {env : RunEnv} {w : Run} {result : Int}
    (hrun : lwsRun conf env beh x = (w, some result)) : ∃ called, Redirects beh x w called := by
  obtain ⟨y, z, hinit, hmain, hpost⟩ := lwsRun_stages hrun
  have hcall {chunk : Chunk} {u v : Run} {r : Option Int} (hu : u.lctx.sealed = false) (h : lwsCall chunk (beh chunk) u = (v, r)) :
      ∃ called, Redirects beh u v called := by
    obtain ⟨called, hr⟩ := lwsCall_redirects beh chunk hu
    rw [h] at hr
    exact ⟨called, hr⟩
  obtain ⟨called₀, h₀⟩ : ∃ called, Redirects beh x y called := by
    rcases runInit_ok hinit with ⟨-, rfl⟩ | ⟨-, rfl⟩ | ⟨u, r, hu, rfl⟩
    · exact ⟨[], (List.append_nil _).symm, rfl, rfl⟩
    · exact ⟨[], (List.append_nil _).symm, rfl, rfl⟩
    · obtain ⟨called, hr⟩ := @hcall .init { x with lctx := {} } u (some r) rfl hu
      exact ⟨called, hr.log, hr.unsealed, hr.ctx⟩
  obtain ⟨called₁, h₁⟩ : ∃ called, Redirects beh y z called := by
    rcases runMain_some hmain with ⟨-, hz, -⟩ | ⟨u, hz, ⟨-, rfl⟩ | ⟨-, -, r, hu⟩⟩
    · exact hcall h₀.unsealed hz
    · exact hcall h₀.unsealed hz
    · obtain ⟨called, hpre⟩ := hcall h₀.unsealed hu
      obtain ⟨called', hm⟩ := hcall hpre.unsealed hz
      exact ⟨called ++ called', hpre.trans hm⟩
  obtain ⟨called₂, h₂⟩ : ∃ called, Redirects beh z w called := by
    rcases runPost_ok hpost with rfl | ⟨r, hw⟩
    · exact ⟨[], .refl h₁.unsealed⟩
    · exact hcall h₁.unsealed hw
  exact ⟨_, (h₀.trans h₁).trans h₂⟩

end

/-- **The redirect of a request** is that of the last call that its chunks made and that succeeded, where nothing interferes with
it. -/
theorem lwsRunState_redirected {conf : ChunkConf} {env : RunEnv} {beh : Chunk → Behaviour} {init close : Bool} {status : Int}
    {run : Run} (hrun : lwsRunState conf env beh { init := init, close := close, ctx := { status := status } } = run)
    (hrc : 0 ≤ run.ctx.rc) (h : Undisturbed (redirectCalls beh run.log)) (headers : Bool) :
    Redirected (redirectCalls beh run.log) (respond headers run.ctx) := by
  subst hrun
  obtain ⟨w, hw, hrun⟩ := lwsRunState_result hrc
  obtain ⟨called, hlog, -, hctx⟩ := lwsRun_redirects hw
  generalize (lwsRunState conf env beh { init := init, close := close, ctx := { status := status } }).ctx.rc = rc at hrun hrc hw
  rw [hrun] at h ⊢
  obtain rfl : w.log = called := hlog
  obtain ⟨hredirect, hargs, hstatus⟩ := @runRedirects_fields (redirectCalls beh w.log) { status := status } {} rfl rfl
  rw [← show w.ctx = runRedirects _ { status := status } from hctx] at hredirect hargs hstatus
  have hfinal : ({ w.ctx with rc := rc } : RequestCtx) = finalCtx (redirectCalls beh w.log) rc status := by
    rw [finalCtx, ← hredirect, ← hargs]
    dsimp only at hstatus ⊢
    rw [hstatus]
  dsimp only at h ⊢
  rw [hfinal]
  exact h.redirected headers hrc status

/-- **When the redirect is that of the last call that succeeds**: no later call fails in the copy of its path, nor in the copy
of its args where the last call that succeeds gives a path with args; and where it gives a path without args, none are stored
by an earlier call. -/
theorem redirect_is_last_iff (calls : List RedirectCall) :
    (∀ headers rc status, 0 ≤ rc → Redirected calls (respond headers (finalCtx calls rc status))) ↔ Undisturbed calls := by
  constructor
  · intro h before c after he hc hafter
    have hlast := h true 0 0 le_rfl
    rw [he, Redirected, lastRedirect_of_split before hc hafter] at hlast
    exact (answers_iff true before hc hafter le_rfl 0).1 hlast
  · intro h headers rc status hrc
    exact h.redirected headers hrc status

/-- A path with args, and then one without: the args of the first go with the second. -/
theorem redirect_keeps_stored_args :
    let calls : List RedirectCall := [⟨{ chunk := .main }, [0x2f, 0x61], some [0x78, 0x3d, 0x31], true, true⟩,
      ⟨{ chunk := .main }, [0x2f, 0x62], none, true, true⟩]
    respond true (finalCtx calls 0 200) = .internalRedirect [0x2f, 0x62] ⟨some [0x78, 0x3d, 0x31], 3⟩ ∧
      ¬Redirected calls (respond true (finalCtx calls 0 200)) := by
  refine ⟨by decide, ?_⟩
  rintro ⟨args, he, hread⟩
  obtain rfl : args = ⟨some [0x78, 0x3d, 0x31], 3⟩ := (Response.internalRedirect.inj he).2.symm
  exact absurd hread (by decide)

end Lws
