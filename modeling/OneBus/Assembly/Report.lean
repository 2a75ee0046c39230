import OneBus.Assembly.Encoding
import OneBus.Machine.Journal

/-!
What the journal says about an assembled program.
-/

namespace OneBus.Assembly

def Program.event (p : Program) : Event := .assembled p.body.length p.symbols.length p.entry

end OneBus.Assembly
