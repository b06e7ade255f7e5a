/- Pipelines: stages one inside the other around a service. The first stage is the outermost. -/

import TableQuery.Pipeline.Stage

set_option autoImplicit false
set_option relaxedAutoImplicit false

namespace TableQuery.Pipeline

/-- Runs the outermost `depth` stages around the rest of the pipeline. -/
def runDepth {σ : Type} (service : Service σ) :
    Nat → Record → List Stage × σ → Run (List Stage × σ) StepResult
  | depth + 1, request, (stage :: rest, state) =>
    (stage.around (fun inner => service.patience inner.2) (runDepth service depth) request
      (rest, state)).mapState fun (stage, rest, state) => (stage :: rest, state)
  | _, request, (stages, state) => (service.send request state).mapState ((stages, ·))

def run {σ : Type} (service : Service σ) (stages : List Stage) (request : Record) (state : σ) :
    Run (List Stage × σ) StepResult :=
  runDepth service stages.length request (stages, state)

end TableQuery.Pipeline
