/-
The module for the log of a run, as bundles embed it.
-/

namespace Workflow.Bundle.Shipped

/-- The lines of the module for the log of a run. -/
def loggerLines : List String := [
  "\"\"\"",
  "Execution logger for generated workflow handlers.",
  "",
  "Collects structured entries that are returned in the response envelope and",
  "mirrors each of them to the standard logging module.",
  "\"\"\"",
  "",
  "import logging",
  "import time",
  "from typing import Any, Dict, List, Optional",
  "",
  "",
  "_log = logging.getLogger(\"flowsmith.workflow\")",
  "",
  "",
  "class Logger:",
  "    \"\"\"Per-execution log collector.\"\"\"",
  "",
  "    def __init__(self, workflow_id: str, execution_id: str):",
  "        self.workflow_id = workflow_id",
  "        self.execution_id = execution_id",
  "        self._entries: List[Dict[str, Any]] = []",
  "",
  "    def info(self, message: str, data: Any = None) -> None:",
  "        self._record(\"info\", message, data)",
  "        _log.info(f\"[\x7bself.execution_id\x7d] \x7bmessage\x7d\")",
  "",
  "    def debug(self, message: str, data: Any = None) -> None:",
  "        self._record(\"debug\", message, data)",
  "        _log.debug(f\"[\x7bself.execution_id\x7d] \x7bmessage\x7d\")",
  "",
  "    def warn(self, message: str, data: Any = None) -> None:",
  "        self._record(\"warn\", message, data)",
  "        _log.warning(f\"[\x7bself.execution_id\x7d] \x7bmessage\x7d\")",
  "",
  "    def error(self, message: str, error: Optional[Any] = None) -> None:",
  "        if isinstance(error, BaseException):",
  "            data = \x7b\"message\": str(error), \"type\": type(error).__name__\x7d",
  "        else:",
  "            data = error",
  "        self._record(\"error\", message, data)",
  "        _log.error(f\"[\x7bself.execution_id\x7d] \x7bmessage\x7d: \x7bdata\x7d\")",
  "",
  "    def _record(self, level: str, message: str, data: Any) -> None:",
  "        self._entries.append(\x7b",
  "            \"timestamp\": int(time.time() * 1000),",
  "            \"level\": level,",
  "            \"message\": message,",
  "            \"data\": data,",
  "            \"workflowId\": self.workflow_id,",
  "            \"executionId\": self.execution_id,",
  "        \x7d)",
  "",
  "    def get_logs(self) -> List[Dict[str, Any]]:",
  "        return list(self._entries)"]

end Workflow.Bundle.Shipped
