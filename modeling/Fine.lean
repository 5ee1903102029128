import Fine.Lift.Retraction
import Fine.Rainfall.Agreement
import Fine.Rainfall.Chronology
import Fine.Rainfall.Crash
import Fine.Rainfall.Live
import Fine.Rainfall.Observers
import Fine.Rainfall.Positions
import Fine.Rainfall.Restarts
import Fine.Rainfall.Transport
import Fine.Runtime.Execute
import Fine.Runtime.Instantiation
import Fine.Runtime.Literals
import Fine.Runtime.Relation
import Fine.Runtime.Synthesized
import Fine.Runtime.Witness
import Fine.Syntax.Delimiters
