import ProjectsCpp.ButtonRpc.Serializer
import Mathlib.Logic.Function.Basic

/-! A call of buttonrpc (`buttonrpc.hpp`): what the client sends, what the server does with it, and
what the client makes of the reply. A read past the end of a message gives `none`. -/

namespace ProjectsCpp.ButtonRpc

def RPC_ERR_SUCCESS : Nat := 0
def RPC_ERR_FUNCTIION_NOT_BIND : Nat := 1
def RPC_ERR_RECV_TIMEOUT : Nat := 2

def text (s : String) : List UInt8 := s.toList.map fun c => UInt8.ofNat c.toNat

structure value_t where
  code_ : Nat
  msg_ : List UInt8
  val_ : Value

namespace value_t

def write (s : Serializer) (d : value_t) : Serializer :=
  s.inputs [.plain (uint16_bytes d.code_), .str d.msg_, d.val_]

def read (s : Serializer) (val : Value) : Option value_t :=
  (s.outputs [.plain (uint16_bytes 0), .str []]).bind fun r =>
    match r.1 with
    | [.plain code, .str msg] =>
      if uint16_of code = 0 then (r.2.output_type val).map fun r => ⟨uint16_of code, msg, r.1⟩
      else some ⟨uint16_of code, msg, val⟩
    | _ => none

end value_t

/-- A bound function: the variables for its parameters as they are before the read, and what it does
to the state of the server. A function without a result gives one byte. -/
structure Handler (σ : Type) where
  params : List Value
  func : σ → List Value → σ × Value

variable {σ : Type}

abbrev Handlers (σ : Type) := List UInt8 → Option (Handler σ)

def bind (m_handlers : Handlers σ) (name : List UInt8) (handler : Handler σ) : Handlers σ :=
  Function.update m_handlers name (some handler)

def callproxy_ (handler : Handler σ) (state : σ) (data : List UInt8) : Option (σ × List UInt8) :=
  ((Serializer.new data).outputs handler.params).map fun params =>
    let r := handler.func state params.1
    (r.1, (value_t.write (.new []) ⟨RPC_ERR_SUCCESS, [], r.2⟩).m_iodevice)

def call_ (m_handlers : Handlers σ) (state : σ) (name data : List UInt8) :
    Option (σ × List UInt8) :=
  match m_handlers name with
  | none => some (state, ((Serializer.new []).inputs
      [.plain (uint16_bytes RPC_ERR_FUNCTIION_NOT_BIND),
        .str (text "function not bind: " ++ name)]).m_iodevice)
  | some handler => callproxy_ handler state data

/-- One round of `run`. The length that it gives to `call_` is too large by the length mark of the
name, so that the two bytes behind the message are copied as well: `memory` is what stands there. -/
def run (m_handlers : Handlers σ) (state : σ) (data memory : List UInt8) :
    Option (σ × List UInt8) :=
  ((Serializer.new data).output_type (.str [])).bind fun r =>
    match r.1 with
    | .plain _ => none
    | .str funname => call_ m_handlers state funname
        ((r.2.current ++ memory).take (data.length - funname.length))

/-- A call, with the byte behind the request that `net_call` does not set. -/
structure Call where
  name : List UInt8
  params : List Value
  unset : UInt8

def Call.request (c : Call) : List UInt8 :=
  ((Serializer.new []).inputs (.str c.name :: c.params)).m_iodevice ++ [c.unset]

def reply_value (reply : List UInt8) (val : Value) : Option value_t := value_t.read (.new reply) val

def timeout_value (val : Value) : value_t := ⟨RPC_ERR_RECV_TIMEOUT, text "recv timeout", val⟩

/-! ### One exchange -/

/-- What the call stands for: the function under the name as far as it is sent, on the arguments as
far as they are. -/
def answer (m_handlers : Handlers σ) (val : Value) (state : σ) (c : Call) : σ × value_t :=
  match m_handlers (cut c.name) with
  | none => (state, ⟨RPC_ERR_FUNCTIION_NOT_BIND, cut (text "function not bind: " ++ cut c.name), val⟩)
  | some handler =>
    let r := handler.func state (List.zipWith received c.params handler.params)
    (r.1, ⟨RPC_ERR_SUCCESS, [], received r.2 val⟩)

def Typed (m_handlers : Handlers σ) (val : Value) (c : Call) : Prop :=
  ∀ handler, m_handlers (cut c.name) = some handler →
    List.Forall₂ Alike c.params handler.params ∧ ∀ state params, Alike (handler.func state params).2 val

theorem inputs_new (vs : List Value) :
    ((Serializer.new []).inputs vs).m_iodevice = vs.flatMap encoded := by
  rw [Serializer.inputs_eq]
  rfl

theorem read_front {code : Nat} (msg : List UInt8) {reply rest : List UInt8} (val : Value) (small : code < 65536)
    (front : reply = [.plain (uint16_bytes code), .str msg].flatMap encoded ++ rest) :
    ∃ t : Serializer, t.current = rest ∧ reply_value reply val =
      if code = 0 then (t.output_type val).map fun r => ⟨code, cut msg, r.1⟩
      else some ⟨code, cut msg, val⟩ := by
  have alike : List.Forall₂ Alike [.plain (uint16_bytes code), .str msg]
      [.plain (uint16_bytes 0), .str []] := .cons rfl (.cons trivial .nil)
  obtain ⟨t, reads, later⟩ := Serializer.outputs_encoded alike
    (show (Serializer.new reply).current = _ ++ rest from front)
  refine ⟨t, later.current, ?_⟩
  rw [reply_value, value_t.read, reads]
  simp [received, uint16_of_bytes small]

theorem reply_value_success {v val : Value} (alike : Alike v val) :
    reply_value (value_t.write (.new []) ⟨RPC_ERR_SUCCESS, [], v⟩).m_iodevice val =
      some ⟨RPC_ERR_SUCCESS, [], received v val⟩ := by
  have front : (value_t.write (.new []) ⟨RPC_ERR_SUCCESS, [], v⟩).m_iodevice =
      [.plain (uint16_bytes RPC_ERR_SUCCESS), .str []].flatMap encoded ++ encoded v := by
    rw [value_t.write, inputs_new]
    simp
  obtain ⟨t, current, reads⟩ := read_front [] val (by decide) front
  obtain ⟨u, read, -⟩ := Serializer.output_encoded alike (current.trans (List.append_nil _).symm)
  rw [reads, if_pos (by decide), read]
  rfl

theorem callproxy_spec {handler : Handler σ} {params : List Value}
    (alike : List.Forall₂ Alike params handler.params) (state : σ) (rest : List UInt8) :
    callproxy_ handler state (params.flatMap encoded ++ rest) =
      some ((handler.func state (List.zipWith received params handler.params)).1,
        (value_t.write (.new []) ⟨RPC_ERR_SUCCESS, [],
          (handler.func state (List.zipWith received params handler.params)).2⟩).m_iodevice) := by
  obtain ⟨t, reads, -⟩ := Serializer.outputs_encoded alike
    (show (Serializer.new (params.flatMap encoded ++ rest)).current = _ ++ rest from rfl)
  rw [callproxy_, reads]
  rfl

theorem run_request (m_handlers : Handlers σ) (state : σ) (c : Call) (memory : List UInt8) :
    run m_handlers state c.request memory = call_ m_handlers state (cut c.name)
      (c.params.flatMap encoded ++ (c.unset :: memory).take 3) := by
  have request : c.request = encoded (.str c.name) ++ (c.params.flatMap encoded ++ [c.unset]) := by
    rw [Call.request, inputs_new, List.flatMap_cons, List.append_assoc]
  obtain ⟨t, read, later⟩ := Serializer.output_encoded (v := .str c.name) (w := .str []) trivial
    (show (Serializer.new c.request).current = _ from request)
  have length : c.request.length - (cut c.name).length = (c.params.flatMap encoded).length + 3 := by
    have mark : (encoded (.str c.name)).length = 2 + (cut c.name).length := by
      rw [encoded, List.length_append]
      rfl
    rw [request, List.length_append, mark, List.length_append, List.length_singleton]
    omega
  rw [run, read, Option.bind_some]
  simp only [received, List.append_nil, later.current, length]
  congr 1
  rw [List.append_assoc, List.take_append, List.take_of_length_le (Nat.le_add_right _ _),
    Nat.add_sub_cancel_left]
  rfl

/-- The bytes behind the message make no difference. -/
theorem exchange {m_handlers : Handlers σ} {val : Value} {c : Call} (typed : Typed m_handlers val c)
    (state : σ) :
    ∃ reply ≠ [], (∀ memory, run m_handlers state c.request memory =
        some ((answer m_handlers val state c).1, reply)) ∧
      reply_value reply val = some (answer m_handlers val state c).2 := by
  simp only [run_request, call_, answer]
  cases bound : m_handlers (cut c.name) with
  | none =>
    refine ⟨_, ?_, fun _ => rfl, ?_⟩
    · rw [inputs_new]
      exact List.cons_ne_nil _ _
    · obtain ⟨t, -, reads⟩ := read_front (text "function not bind: " ++ cut c.name) val
        (show RPC_ERR_FUNCTIION_NOT_BIND < 65536 by decide)
        ((inputs_new _).trans (List.append_nil _).symm)
      rw [reads, if_neg (by decide)]
  | some handler =>
    obtain ⟨params, result⟩ := typed handler bound
    simp only [callproxy_spec params]
    refine ⟨_, ?_, fun _ => rfl, reply_value_success (result state _)⟩
    rw [value_t.write, inputs_new]
    exact List.cons_ne_nil _ _

end ProjectsCpp.ButtonRpc
